import DottedPatch.Patch.Pass

namespace DottedPatch

open Patch

structure ReportSettings where
  format : ReportFormat := .text
  onlyRejected : Bool := false
  deriving DecidableEq, Repr

structure Settings where
  casing : Casing := .exact
  entries : EntryPolicy := .rejectLine
  traceLookups : Bool := false
  report : ReportSettings := {}
  deriving DecidableEq, Repr

namespace Settings

def rules (s : Settings) : Rules := { casing := s.casing, entries := s.entries }

def applicationName : String := "confpatch"

def fileName : String := "confpatch.toml"

def defaultMark : String := "CONFPATCH"

end Settings

end DottedPatch
