import Ezfadvance.SavePlan
import Ezfadvance.SingleImage
import Ezfadvance.CatalogReader
import Ezfadvance.LoadedImage
import Ezfadvance.Extraction
import Ezfadvance.Lib.Interact
import Ezfadvance.Transport
import Ezfadvance.FlashCard
import Ezfadvance.FlashWriter
import Ezfadvance.FlashedImage
import Ezfadvance.Verification
import Ezfadvance.Lib.Environment
import Ezfadvance.Tool
import Ezfadvance.ReadOnlyCartridge
import Ezfadvance.ReadMapping
import Ezfadvance.Ez3CardWorkflow
import Ezfadvance.OfficialCartridge
import Ezfadvance.CardReader
import Ezfadvance.SaveCatalogAnalyzer
import Ezfadvance.ReadSession
import Ezfadvance.SaveWorkflow
import Ezfadvance.SaveReader
import Ezfadvance.Unchanged
import Ezfadvance.Cartridge
import Ezfadvance.CardWipeWorkflow
import Ezfadvance.LibusbWriterBackend
import Ezfadvance.CardWriter
import Ezfadvance.AbortedWrite
import Ezfadvance.RomInput
import Ezfadvance.PlacementLayout
import Ezfadvance.Lib.Occurrence
import Ezfadvance.SaveMarkerScan
import Ezfadvance.EepromMapping
import Ezfadvance.Lib.Agreement
import Ezfadvance.MappingSession
import Ezfadvance.SaveRoundTrip
import Ezfadvance.AllocationSpan
import Ezfadvance.CheckedReads
import Ezfadvance.Lib.Arguments
import Ezfadvance.WriterOptions
import Ezfadvance.CardOutcome
import Ezfadvance.WorkingCard
import Ezfadvance.WriteOutcome
import Ezfadvance.WorkingWriter
import Ezfadvance.ReadBack
import Ezfadvance.WriteThenRead
import Ezfadvance.RomAnalyzer
import Ezfadvance.RomInputLoader
import Ezfadvance.MultiromWriter
import Ezfadvance.UsbDevice
import Ezfadvance.CardReaderOptions
import Ezfadvance.WipeCard
import Ezfadvance.Programs
import Ezfadvance.SaveOutcome
