import ExportSurface.Main
import ExportSurface.Proofs.Rearrangement
import ExportSurface.Proofs.Grounding
import ExportSurface.Proofs.SharedKeys
import ExportSurface.Proofs.Namesakes
import ExportSurface.Proofs.Rereading
import ExportSurface.Proofs.GlobMeaning
import ExportSurface.Proofs.GlobClasses
import ExportSurface.Proofs.GlobConfinement
import ExportSurface.Proofs.Malformed
import ExportSurface.Proofs.BrokenOff
import ExportSurface.Proofs.AfterFailure
import ExportSurface.Proofs.Leniency
import ExportSurface.Proofs.HiddenMembers
import ExportSurface.Proofs.Nullability
import ExportSurface.Proofs.Conversions
import ExportSurface.Proofs.Accounting
import ExportSurface.Proofs.Erasure
import ExportSurface.Proofs.GlobWellFormed
import ExportSurface.Proofs.GlobWidening
import ExportSurface.Proofs.RegexReader
import ExportSurface.Proofs.GlobReading
import ExportSurface.Proofs.PatternForms
import ExportSurface.Proofs.MemoCalls
import ExportSurface.Proofs.MemoBooks
import ExportSurface.Proofs.Places
import ExportSurface.Proofs.ClassAssembly
