import Ezfadvance.CardReader
import Ezfadvance.SaveReader
import Ezfadvance.WriterOptions

/-!
# CardReaderOptions

The command line of the card reader (`card_reader_options.cpp`).

* `stoul`: `std::stoul` in base 10, where `unsigned long` goes up to `maximum`.
* `parseCardReaderOptions`: as in the source, with the texts of the errors.
* `NamesRom`: the texts that are taken for a ROM number; a sign is one of their characters.
* `parse_run_iff`: an accepted command line is empty, or it is one request among `--verbose`.
-/

namespace Ezfadvance

open CartridgeFormat Arguments

structure CardReaderArguments extends CardReaderOptions where
  verbose : Bool := false

inductive CardReaderParse where
  | run (options : CardReaderArguments)
  | help
  | error (diagnostic : Bytes)

def isdigit (c : UInt8) : Bool := decide (0x30 ≤ c ∧ c ≤ 0x39)

/-- A sign in front of a number, and what follows it. -/
def splitSign (text : Bytes) : Bytes × Bytes :=
  if text.head? = some 0x2B ∨ text.head? = some 0x2D then (text.take 1, text.drop 1) else ([], text)

/-- The number, and how many characters it takes up; no result where it throws. A number with a minus is
negated in `unsigned long`. -/
def stoul (maximum : Nat) (text : Bytes) : Option (Nat × Nat) :=
  let sign := (splitSign (text.dropWhile isspace)).1
  let unsigned := (splitSign (text.dropWhile isspace)).2
  let digits := unsigned.takeWhile isdigit
  let parsed := value 10 (digits.map fun c => c.toNat - 0x30) 0
  if digits.isEmpty ∨ parsed > maximum then none
  else
    some (if sign = ascii "-" then (maximum + 1 - parsed) % (maximum + 1) else parsed,
      text.length - (unsigned.length - digits.length))

def parseRomNumber (maximum : Nat) (text : Bytes) : Option Nat :=
  (stoul maximum text).bind fun found =>
    if found.2 ≠ text.length ∨ found.1 = 0 then none else some found.1

/-- The check behind the loop. -/
def checkCardReaderOptions (options : CardReaderArguments) : CardReaderParse :=
  if options.verbose && !options.extract then
    .error (ascii "--verbose is currently available with extraction only.\n")
  else .run options

def CardReaderArguments.request (options : CardReaderArguments) (number : Option Nat) (path : Bytes) :
    CardReaderArguments :=
  { options with extract := true, romNumber := number, outputPath := path }

/-- The loop over the arguments. -/
def parseCardReaderFrom (maximum : Nat) : List Bytes → CardReaderArguments → CardReaderParse
  | [], options => checkCardReaderOptions options
  | argument :: arguments, options =>
    if argument = ascii "--extract" ∨ argument = ascii "--dump" then
      match arguments with
      | [] => .error (ascii "Invalid or incomplete " ++ argument ++ ascii " option.\n")
      | first :: arguments =>
        if options.extract then
          .error (ascii "Invalid or incomplete " ++ argument ++ ascii " option.\n")
        else
          match arguments with
          | [] =>
            if first.isEmpty then .error (ascii "Extraction output path is empty.\n")
            else parseCardReaderFrom maximum [] (options.request none first)
          | second :: arguments =>
            if startsWith second "--" then
              if first.isEmpty then .error (ascii "Extraction output path is empty.\n")
              else parseCardReaderFrom maximum (second :: arguments) (options.request none first)
            else
              match parseRomNumber maximum first with
              | none => .error (ascii "Bad ROM number for EZ3 " ++ argument ++ ascii ".\n")
              | some number =>
                if second.isEmpty then .error (ascii "Extraction output path is empty.\n")
                else parseCardReaderFrom maximum arguments (options.request (some number) second)
    else if argument = ascii "--verbose" then
      parseCardReaderFrom maximum arguments { options with verbose := true }
    else if argument = ascii "--help" ∨ argument = ascii "-h" then .help
    else .error (ascii "Unknown option: " ++ argument ++ ascii "\n")

def parseCardReaderOptions (maximum : Nat) (arguments : List Bytes) : CardReaderParse :=
  parseCardReaderFrom maximum arguments {}

/-! ## The number of a ROM -/

/-- The texts that are taken for the number of a ROM: blanks, perhaps a sign, and a number that is not
0. Behind a minus it counts down from the end of `unsigned long`. -/
def NamesRom (maximum : Nat) (text : Bytes) (n : Nat) : Prop :=
  ∃ blanks sign digits m, text = blanks ++ (sign ++ digits) ∧ (∀ c ∈ blanks, isspace c = true) ∧
    (sign = [] ∨ sign = ascii "+" ∨ sign = ascii "-") ∧ WritesDecimal digits m ∧ m ≠ 0 ∧
    m ≤ maximum ∧ n = if sign = ascii "-" then maximum + 1 - m else m

section Number

variable {maximum n : Nat} {text sign digits : Bytes}

theorem splitSign_append : (splitSign text).1 ++ (splitSign text).2 = text ∧
    ((splitSign text).1 = [] ∨ (splitSign text).1 = ascii "+" ∨ (splitSign text).1 = ascii "-") := by
  rw [splitSign]
  split
  case isTrue h =>
    refine ⟨List.take_append_drop 1 text, .inr ?_⟩
    cases text with
    | nil => simp at h
    | cons c rest => exact h.imp (fun h => by cases h; rfl) fun h => by cases h; rfl
  case isFalse => exact ⟨rfl, .inl rfl⟩

theorem splitSign_of_digit {c : UInt8} {rest : Bytes}
    (hsign : sign = [] ∨ sign = ascii "+" ∨ sign = ascii "-") (hc : isdigit c = true) :
    splitSign (sign ++ c :: rest) = (sign, c :: rest) := by
  obtain rfl | rfl | rfl := hsign
  · rw [splitSign, if_neg]
    · rfl
    · rintro (h | h) <;> cases h <;> cases hc
  · rfl
  · rfl

theorem isspace_of_digit {c : UInt8} {rest : Bytes}
    (hsign : sign = [] ∨ sign = ascii "+" ∨ sign = ascii "-") (hc : isdigit c = true) :
    (sign ++ c :: rest).dropWhile isspace = sign ++ c :: rest := by
  obtain rfl | rfl | rfl := hsign
  · have hblank : ¬ isspace c = true := by
      rw [isdigit, decide_eq_true_eq] at hc
      rw [isspace, decide_eq_true_eq]
      rintro (rfl | ⟨_, hle⟩)
      · exact absurd hc.1 (by decide)
      · exact absurd (UInt8.le_trans hc.1 hle) (by decide)
    exact List.dropWhile_cons_of_neg hblank
  · rfl
  · rfl

theorem writesDecimal_iff : WritesDecimal digits n ↔
    digits ≠ [] ∧ (∀ c ∈ digits, isdigit c = true) ∧
      value 10 (digits.map fun c => c.toNat - 0x30) 0 = n := by
  rw [WritesDecimal, value_eq_ofDigits, Nat.zero_mul, Nat.add_zero]
  simp only [isdigit, decide_eq_true_eq]

theorem stoul_iff {found consumed : Nat} : stoul maximum text = some (found, consumed) ↔
    ∃ blanks sign digits rest m, text = blanks ++ (sign ++ (digits ++ rest)) ∧
      (∀ c ∈ blanks, isspace c = true) ∧ (sign = [] ∨ sign = ascii "+" ∨ sign = ascii "-") ∧
      WritesDecimal digits m ∧ rest.takeWhile isdigit = [] ∧ m ≤ maximum ∧
      found = (if sign = ascii "-" then (maximum + 1 - m) % (maximum + 1) else m) ∧
      consumed = text.length - rest.length := by
  constructor
  · intro h
    obtain ⟨happend, hsign⟩ := @splitSign_append (text.dropWhile isspace)
    rw [stoul] at h
    generalize splitSign (text.dropWhile isspace) = split at happend hsign h
    obtain ⟨sign, unsigned⟩ := split
    dsimp only at happend hsign h
    by_cases hthrows : (unsigned.takeWhile isdigit).isEmpty = true ∨
        value 10 ((unsigned.takeWhile isdigit).map fun c => c.toNat - 0x30) 0 > maximum
    · rw [if_pos hthrows] at h
      cases h
    rw [if_neg hthrows, Option.some.injEq, Prod.mk.injEq] at h
    obtain ⟨hne, hmax⟩ := not_or.mp hthrows
    have hrest : (unsigned.dropWhile isdigit).length =
        unsigned.length - (unsigned.takeWhile isdigit).length := by
      have := congrArg List.length (@List.takeWhile_append_dropWhile _ isdigit unsigned)
      rw [List.length_append] at this
      omega
    refine ⟨text.takeWhile isspace, sign, unsigned.takeWhile isdigit, unsigned.dropWhile isdigit, _,
      ?_, fun c hc => ?_, hsign, writesDecimal_iff.mpr ⟨fun h => hne (List.isEmpty_iff.mpr h),
      fun c hc => ?_, rfl⟩, ?_, Nat.not_lt.mp hmax, h.1.symm, ?_⟩
    · rw [List.takeWhile_append_dropWhile, happend, List.takeWhile_append_dropWhile]
    · exact List.mem_takeWhile_imp hc
    · exact List.mem_takeWhile_imp hc
    · have hhead := List.head?_dropWhile_not isdigit unsigned
      cases hdrop : unsigned.dropWhile isdigit with
      | nil => rfl
      | cons c tail =>
        rw [hdrop] at hhead
        exact List.takeWhile_cons_of_neg (by simpa using hhead)
    · rw [hrest]
      exact h.2.symm
  · rintro ⟨blanks, sign, digits, rest, m, rfl, hblanks, hsign, hdigits, hrest, hmax, rfl, rfl⟩
    obtain ⟨hne, hall, hvalue⟩ := writesDecimal_iff.mp hdigits
    have htake : (digits ++ rest).takeWhile isdigit = digits := by
      rw [List.takeWhile_append_of_pos hall, hrest, List.append_nil]
    obtain ⟨c, tail, rfl⟩ := List.exists_cons_of_ne_nil hne
    have hc := hall c (List.mem_cons_self ..)
    rw [stoul, List.dropWhile_append_of_pos hblanks, List.cons_append, isspace_of_digit hsign hc,
      splitSign_of_digit hsign hc]
    dsimp only
    rw [← List.cons_append, htake, hvalue, if_neg (not_or.mpr ⟨by simp, Nat.not_lt.mpr hmax⟩)]
    simp only [List.length_append, Nat.add_sub_cancel_left]

/-- A number takes up the whole text exactly where it is the text of a ROM number. -/
theorem parseRomNumber_iff : parseRomNumber maximum text = some n ↔ NamesRom maximum text n := by
  rw [parseRomNumber, Option.bind_eq_some_iff]
  constructor
  · rintro ⟨⟨found, consumed⟩, hfound, h⟩
    obtain ⟨blanks, sign, digits, rest, m, rfl, hblanks, hsign, hdigits, _, hmax, rfl, rfl⟩ :=
      stoul_iff.mp hfound
    dsimp only at h
    by_cases hreject : (blanks ++ (sign ++ (digits ++ rest))).length - rest.length ≠
        (blanks ++ (sign ++ (digits ++ rest))).length ∨
        (if sign = ascii "-" then (maximum + 1 - m) % (maximum + 1) else m) = 0
    · rw [if_pos hreject] at h
      cases h
    rw [if_neg hreject] at h
    cases h
    obtain ⟨hconsumed, hzero⟩ := not_or.mp hreject
    have hpos := List.length_pos_iff.mpr hdigits.1
    have hrest : rest = [] := by
      refine List.length_eq_zero_iff.mp ?_
      simp only [List.length_append] at hconsumed
      omega
    have hm : m ≠ 0 := by
      rintro rfl
      rw [Nat.sub_zero, Nat.mod_self, ite_self] at hzero
      exact hzero rfl
    rw [hrest, List.append_nil]
    exact ⟨blanks, sign, digits, m, rfl, hblanks, hsign, hdigits, hm, hmax,
      by rw [Nat.mod_eq_of_lt (by omega)]⟩
  · rintro ⟨blanks, sign, digits, m, rfl, hblanks, hsign, hdigits, hzero, hmax, rfl⟩
    refine ⟨(if sign = ascii "-" then maximum + 1 - m else m, _), stoul_iff.mpr
      ⟨blanks, sign, digits, [], m, by rw [List.append_nil], hblanks, hsign, hdigits, rfl, hmax, ?_,
        rfl⟩, ?_⟩
    · rw [Nat.mod_eq_of_lt (by omega)]
    · rw [if_neg]
      rintro (h | h)
      · exact h (Nat.sub_zero _)
      · split_ifs at h
        · omega
        · exact hzero h

end Number

/-! ## Accepted command lines -/

/-- What `--extract` and `--dump` take behind them. -/
def Requests (maximum : Nat) (taken : List Bytes) (number : Option Nat) (path : Bytes) : Prop :=
  path ≠ [] ∧ ((taken = [path] ∧ number = none) ∨
    ∃ text n, taken = [text, path] ∧ number = some n ∧ NamesRom maximum text n ∧
      startsWith path "--" = false)

section Accepted

variable {maximum : Nat} {argument : Bytes} {arguments : List Bytes}
  {options accepted : CardReaderArguments}

/-- A request without a number is the one behind which nothing, or an option, stands. -/
theorem parse_request_iff (hflag : argument = ascii "--extract" ∨ argument = ascii "--dump") :
    parseCardReaderFrom maximum (argument :: arguments) options = .run accepted ↔
      options.extract = false ∧
        ∃ taken rest number path, arguments = taken ++ rest ∧ Requests maximum taken number path ∧
          (number = none → ∀ next ∈ rest.head?, startsWith next "--" = true) ∧
          parseCardReaderFrom maximum rest (options.request number path) = .run accepted := by
  constructor
  · intro h
    rw [parseCardReaderFrom.eq_def] at h
    dsimp only at h
    rw [if_pos hflag] at h
    cases arguments with
    | nil => cases h
    | cons first arguments =>
      cases hextract : options.extract with
      | true =>
        dsimp only at h
        rw [if_pos hextract] at h
        cases h
      | false =>
        refine ⟨rfl, ?_⟩
        dsimp only at h
        rw [if_neg (by rw [hextract]; decide)] at h
        cases arguments with
        | nil =>
          dsimp only at h
          by_cases hempty : first.isEmpty = true
          · rw [if_pos hempty] at h
            cases h
          · rw [if_neg hempty] at h
            exact ⟨[first], [], none, first, rfl, ⟨fun h => hempty (List.isEmpty_iff.mpr h),
              .inl ⟨rfl, rfl⟩⟩, by simp, h⟩
        | cons second arguments =>
          dsimp only at h
          by_cases hoption : startsWith second "--" = true
          · rw [if_pos hoption] at h
            by_cases hempty : first.isEmpty = true
            · rw [if_pos hempty] at h
              cases h
            · rw [if_neg hempty] at h
              exact ⟨[first], second :: arguments, none, first, rfl,
                ⟨fun h => hempty (List.isEmpty_iff.mpr h), .inl ⟨rfl, rfl⟩⟩, by simpa using hoption,
                h⟩
          · rw [if_neg hoption] at h
            cases hnumber : parseRomNumber maximum first with
            | none =>
              rw [hnumber] at h
              cases h
            | some number =>
              rw [hnumber] at h
              dsimp only at h
              by_cases hempty : second.isEmpty = true
              · rw [if_pos hempty] at h
                cases h
              · rw [if_neg hempty] at h
                exact ⟨[first, second], arguments, some number, second, rfl,
                  ⟨fun h => hempty (List.isEmpty_iff.mpr h), .inr ⟨first, number, rfl, rfl,
                    parseRomNumber_iff.mp hnumber, Bool.eq_false_iff.mpr hoption⟩⟩, by simp, h⟩
  · rintro ⟨hextract, taken, rest, number, path, rfl, ⟨hpath, htaken⟩, hnext, h⟩
    have hempty : ¬ path.isEmpty = true := fun h => hpath (List.isEmpty_iff.mp h)
    have hfree : ¬ options.extract = true := by rw [hextract]; decide
    rw [parseCardReaderFrom.eq_def]
    dsimp only
    rw [if_pos hflag]
    obtain ⟨rfl, rfl⟩ | ⟨text, n, rfl, rfl, hnames, hstart⟩ := htaken
    · cases rest with
      | nil =>
        rw [List.append_nil]
        dsimp only
        rw [if_neg hfree, if_neg hempty]
        exact h
      | cons next rest =>
        dsimp only [List.cons_append, List.nil_append]
        rw [if_neg hfree, if_pos (hnext rfl next rfl), if_neg hempty]
        exact h
    · dsimp only [List.cons_append, List.nil_append]
      rw [if_neg hfree, if_neg (by rw [hstart]; decide), parseRomNumber_iff.mpr hnames]
      dsimp only
      rw [if_neg hempty]
      exact h

/-- One round of the loop. -/
theorem parse_cons_iff :
    parseCardReaderFrom maximum (argument :: arguments) options = .run accepted ↔
      (argument = ascii "--verbose" ∧
        parseCardReaderFrom maximum arguments { options with verbose := true } = .run accepted) ∨
      ((argument = ascii "--extract" ∨ argument = ascii "--dump") ∧ options.extract = false ∧
        ∃ taken rest number path, arguments = taken ++ rest ∧ Requests maximum taken number path ∧
          (number = none → ∀ next ∈ rest.head?, startsWith next "--" = true) ∧
          parseCardReaderFrom maximum rest (options.request number path) = .run accepted) := by
  by_cases hflag : argument = ascii "--extract" ∨ argument = ascii "--dump"
  · have hnot : argument ≠ ascii "--verbose" := by
      rintro rfl
      revert hflag
      decide
    rw [parse_request_iff hflag]
    simp only [hnot, hflag, false_and, true_and, false_or]
  · constructor
    · intro h
      rw [parseCardReaderFrom.eq_def] at h
      dsimp only at h
      rw [if_neg hflag] at h
      split_ifs at h with hverbose hhelp
      exact .inl ⟨hverbose, h⟩
    · rintro (⟨rfl, h⟩ | ⟨h, _⟩)
      · rw [parseCardReaderFrom.eq_def]
        dsimp only
        rw [if_neg hflag, if_pos rfl]
        exact h
      · exact absurd h hflag

/-- Behind the request there is nothing but `--verbose`. -/
theorem parse_requested (hextract : options.extract = true) :
    parseCardReaderFrom maximum arguments options = .run accepted ↔
      (∀ argument ∈ arguments, argument = ascii "--verbose") ∧
        accepted = { options with verbose := options.verbose || !arguments.isEmpty } := by
  induction arguments generalizing options with
  | nil =>
    rw [parseCardReaderFrom, checkCardReaderOptions, hextract]
    simp [eq_comm]
  | cons argument arguments ih =>
    rw [parse_cons_iff, hextract]
    simp only [Bool.true_eq_false, false_and, and_false, or_false, List.forall_mem_cons, and_assoc]
    refine and_congr_right fun _ => ?_
    rw [ih (by exact hextract)]
    simp

/-- One request among `--verbose`, read in front of it or at it. -/
theorem parse_unrequested (hextract : options.extract = false) :
    parseCardReaderFrom maximum arguments options = .run accepted ↔
      (arguments = [] ∧ options.verbose = false ∧ accepted = options) ∨
      ∃ before request taken after number path, arguments = before ++ request :: (taken ++ after) ∧
        (∀ argument ∈ before ++ after, argument = ascii "--verbose") ∧
        (request = ascii "--extract" ∨ request = ascii "--dump") ∧
        Requests maximum taken number path ∧
        accepted = ⟨⟨true, number, path⟩, options.verbose || !(before ++ after).isEmpty⟩ := by
  induction arguments generalizing options with
  | nil =>
    rw [parseCardReaderFrom, checkCardReaderOptions, hextract]
    cases hverbose : options.verbose with
    | true => simp
    | false => simp [eq_comm]
  | cons argument arguments ih =>
    rw [parse_cons_iff]
    constructor
    · rintro (⟨rfl, h⟩ | ⟨hrequest, _, taken, after, number, path, rfl, htaken, _, h⟩)
      · obtain ⟨_, hverbose, _⟩ | ⟨before, request, taken, after, number, path, rfl, hall, hrequest,
          htaken, rfl⟩ := (ih (by exact hextract)).mp h
        · cases hverbose
        · exact .inr ⟨_ :: before, request, taken, after, number, path, rfl,
            List.forall_mem_cons.mpr ⟨rfl, hall⟩, hrequest, htaken, by simp⟩
      · obtain ⟨hall, rfl⟩ := (parse_requested rfl).mp h
        exact .inr ⟨[], argument, taken, after, number, path, rfl, hall, hrequest, htaken, rfl⟩
    · rintro (⟨h, _⟩ | ⟨before, request, taken, after, number, path, h, hall, hrequest, htaken, rfl⟩)
      · cases h
      cases before with
      | nil =>
        cases h
        refine .inr ⟨hrequest, hextract, taken, after, number, path, rfl, htaken,
          fun _ next hnext => ?_, (parse_requested rfl).mpr ⟨hall, rfl⟩⟩
        rw [hall next (List.mem_of_mem_head? hnext)]
        decide
      | cons first before =>
        cases h
        obtain ⟨hfirst, hall⟩ := List.forall_mem_cons.mp hall
        exact .inl ⟨hfirst, (ih (by exact hextract)).mpr (.inr ⟨before, request, taken, after, number,
          path, rfl, hall, hrequest, htaken, by simp⟩)⟩

/-- A command line is accepted if it is empty, or if it asks for one extraction and otherwise only
says `--verbose`, which it may in front of that and behind it. -/
theorem parse_run_iff :
    parseCardReaderOptions maximum arguments = .run accepted ↔
      (arguments = [] ∧ accepted = {}) ∨
      ∃ before request taken after number path, arguments = before ++ request :: (taken ++ after) ∧
        (∀ argument ∈ before ++ after, argument = ascii "--verbose") ∧
        (request = ascii "--extract" ∨ request = ascii "--dump") ∧
        Requests maximum taken number path ∧
        accepted = ⟨⟨true, number, path⟩, !(before ++ after).isEmpty⟩ := by
  rw [parseCardReaderOptions, parse_unrequested rfl]
  simp only [Bool.false_or, true_and]

end Accepted

end Ezfadvance
