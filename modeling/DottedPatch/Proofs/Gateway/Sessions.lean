import DottedPatch.Proofs.Gateway.Reload
import DottedPatch.Proofs.Patch.Sessions

namespace DottedPatch.Gateway

open Config Toml Patch

section

variable [Machine]

theorem sound_of_start {s : Session GatewayConfig} (hreport : s.report = {})
    (hdoc : ∀ text, s.document = some text → s.Loads) : s.Sound schema where
  loads := by
    obtain ⟨lower, hlower⟩ := exists_toTable isTable_shape (default : GatewayConfig)
    cases h : s.document with
    | none => exact Session.loads_of_none rfl regular_shape hlower (beneath_default hlower) h
    | some text => exact hdoc text h
  leaves path hm := by
    rw [hreport] at hm
    cases hm

/-- From any configuration, and any document that can be loaded or none, the document can be loaded
all along a session, and no move fails. -/
theorem session_lasts {s : Session GatewayConfig} (hreport : s.report = {})
    (hdoc : ∀ text, s.document = some text → s.Loads) (moves : List Move)
    (hprint : s.Writes schema Session.Reprints moves) : s.Lasts schema moves := by
  obtain ⟨lower, hlower⟩ := exists_toTable isTable_shape (default : GatewayConfig)
  exact (sound_of_start hreport hdoc).lasts rfl regular_shape undated_fields hlower
    (beneath_default hlower) describes_schema hprint

end

def loadedSession (c : GatewayConfig) (text : String) : Session GatewayConfig :=
  { config := c, file := "", document := some text }

theorem session_lasts_headedSection : ∃ c : GatewayConfig, readBase headedSection "" true = .ok c ∧
    (loadedSession c headedSection).Lasts schema
      [.apply {} [maxSizeLine], .write, .reset, .reload true] := by
  obtain ⟨c, p, d, patched, hc, hp, hdoc, hpatched, -, printed⟩ :=
    exists_of_passPrints prints_headedSection
  have loads : (loadedSession c headedSection).Loads := ⟨c, hc⟩
  refine ⟨c, hc, session_lasts rfl (fun _ _ => loads) _ ⟨nofun, fun s hs => ⟨fun _ => ?_,
    fun _ _ => ⟨nofun, fun _ _ => ⟨nofun, fun _ _ => trivial⟩⟩⟩⟩⟩
  simp only [Session.move, loadedSession, hp] at hs
  obtain rfl := Except.ok.inj hs
  intro t d' ht hdoc'
  obtain rfl := Except.ok.inj (hpatched.symm.trans ht)
  obtain rfl := Option.some.inj (hdoc.symm.trans hdoc')
  exact printed

end DottedPatch.Gateway
