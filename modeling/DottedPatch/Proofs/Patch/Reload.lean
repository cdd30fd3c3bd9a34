import DottedPatch.Proofs.Config.Reload
import DottedPatch.Proofs.Patch.Description
import DottedPatch.Proofs.Patch.Touches

namespace DottedPatch

open Config Toml

namespace Patch

/-- What was written back is read again, and is as patched at every leaf but those that revert to
what they are initially. These are the applied leaves that come back changed. -/
def RoundTrips {α : Type} [Configuration α] (schema : Schema) (text file : String) (report : Report)
    (config : α) : Prop :=
  ∃ (written : String) (again : α) (reverted : List String) (lower patched reloaded : Table),
    writeBack text file report config = .ok written ∧ readBase written file true = .ok again ∧
      reverting report config = .ok reverted ∧ toTable (Configuration.initial : α) = .ok lower ∧
      toTable config = .ok patched ∧ toTable again = .ok reloaded ∧
      (∀ path leaf, (path, leaf) ∈ schema.leaves → Table.lookupPath (pathOf path) reloaded =
        if path ∈ reverted then Table.lookupPath (pathOf path) lower
        else Table.lookupPath (pathOf path) patched) ∧
      reverted.Nodup ∧
      ∀ path, path ∈ reverted ↔ path ∈ report.appliedPaths ∧
        Table.lookupPath (pathOf path) reloaded ≠ Table.lookupPath (pathOf path) patched

/-- The sections around a leaf that are written whole, like a record as an array: a leaf that is left
alone needs the section to stay, and one that is applied needs it to give way, unless the leaf holds
what it holds initially. -/
def KeepsLeaf (upper lower loaded patched : Table) (applied : List String) (path : String) : Prop :=
  ∀ before v, Table.lookupPath before upper = some v → v.table? = none → before <+: pathOf path →
    before ≠ pathOf path →
      (path ∈ applied ↔ Opened (Table.lookupPath · patched) (applied.map pathOf) before) ∨
        Table.lookupPath (pathOf path) loaded = Table.lookupPath (pathOf path) lower

/-- When a document loses nothing by being written to. -/
def Keeps (schema : Schema) (upper lower loaded patched : Table) (applied : List String) : Prop :=
  ∀ path leaf, (path, leaf) ∈ schema.leaves → KeepsLeaf upper lower loaded patched applied path

theorem nodup_eraseDups {α : Type} [BEq α] [LawfulBEq α] : (l : List α) → l.eraseDups.Nodup
  | [] => List.nodup_nil
  | a :: l => by
    rw [List.eraseDups_cons, List.nodup_cons]
    refine ⟨by simp, nodup_eraseDups _⟩
termination_by l => l.length
decreasing_by simpa using Nat.lt_succ_of_le (List.length_filter_le _ l)

theorem mem_appliedPaths {r : Report} {path : String} :
    path ∈ r.appliedPaths ↔ ∃ o ∈ r.outcomes, o.appliedPath? = some path := by
  simp [Report.appliedPaths]

section

variable {schema : Schema} {fields : Fields} (hd : schema.root.describes fields)

include hd

theorem isLeaf_of_mem {path : String} {leaf : Leaf} (h : (path, leaf) ∈ schema.leaves) :
    fields.IsLeaf (pathOf path) ∧ dotted (pathOf path) = path := by
  obtain ⟨names, hc, hpath, keys⟩ := contains_of_mem_leaves hd h
  rw [keys]
  exact ⟨hc.isLeaf hd, hpath.symm⟩

theorem isLeaf_of_leaves {paths : List String}
    (hpaths : ∀ path ∈ paths, ∃ leaf, (path, leaf) ∈ schema.leaves) :
    ∀ path ∈ paths, fields.IsLeaf (pathOf path) := by
  intro path hm
  obtain ⟨_, hleaf⟩ := hpaths path hm
  exact (isLeaf_of_mem hd hleaf).1

theorem mem_leaves_of_applied {α : Type} [Configuration α] {rules : Rules} {lines : List Line} {c : α}
    {p : Patched α} (hp : (applyTo? schema rules lines c).1 = .ok p) :
    ∀ path ∈ p.report.appliedPaths, ∃ leaf, (path, leaf) ∈ schema.leaves := by
  intro path hm
  rw [applyTo?] at hp
  split at hp
  · cases hp
  · obtain ⟨_, _, rfl⟩ := ok_of_map hp
    obtain ⟨o, ho, hpath⟩ := mem_appliedPaths.1 hm
    obtain ⟨target, hin, rfl⟩ := in_of_applied ho hpath
    exact ⟨_, hin.mem_leaves hd⟩

theorem keeps_of_sectioned {upper : Table} (h : fields.sectioned upper) (lower loaded patched : Table)
    (applied : List String) : Keeps schema upper lower loaded patched applied := by
  intro path leaf hleaf before v hv hvt hpre ne
  have blocked := Table.blocked_iff.2 ⟨before, v, hpre, ne, hv, hvt⟩
  rw [Fields.not_blocked_of_sectioned h (isLeaf_of_mem hd hleaf).1] at blocked
  cases blocked

theorem mem_map_pathOf {paths : List String}
    (hpaths : ∀ path ∈ paths, ∃ leaf, (path, leaf) ∈ schema.leaves) {path : String} {leaf : Leaf}
    (h : (path, leaf) ∈ schema.leaves) : pathOf path ∈ paths.map pathOf ↔ path ∈ paths := by
  refine ⟨fun hm => ?_, List.mem_map_of_mem⟩
  obtain ⟨other, hother, eq⟩ := List.mem_map.1 hm
  obtain ⟨_, hleaf⟩ := hpaths other hother
  rwa [← (isLeaf_of_mem hd h).2, ← eq, (isLeaf_of_mem hd hleaf).2]

end

section

variable {patched lower : Table} {applied : List String}

def reverted (patched lower : Table) (applied : List String) : List String :=
  applied.filter fun path => (Table.lookupPath (pathOf path) patched).isNone &&
    (Table.lookupPath (pathOf path) lower).isSome

theorem mem_reverted {path : String} : path ∈ reverted patched lower applied ↔
    path ∈ applied ∧ Table.lookupPath (pathOf path) patched = none ∧
      Table.lookupPath (pathOf path) lower ≠ none := by
  simp [reverted, Option.isSome_iff_ne_none]

theorem mem_reverted_iff_changed {reloaded : Table} {path : String}
    (value : Table.lookupPath (pathOf path) reloaded =
      if path ∈ reverted patched lower applied then Table.lookupPath (pathOf path) lower
      else Table.lookupPath (pathOf path) patched) :
    path ∈ reverted patched lower applied ↔
      Table.lookupPath (pathOf path) reloaded ≠ Table.lookupPath (pathOf path) patched := by
  constructor
  · intro hm
    obtain ⟨_, unset, initial⟩ := mem_reverted.1 hm
    rw [value, if_pos hm, unset]
    exact initial
  · intro changed
    refine Classical.byContradiction fun hm => changed ?_
    rw [value, if_neg hm]

theorem revertedValue_eq (path : String) :
    (if path ∈ reverted patched lower applied then Table.lookupPath (pathOf path) lower
      else Table.lookupPath (pathOf path) patched) =
      if path ∈ applied ∧ Table.lookupPath (pathOf path) patched = none then
        Table.lookupPath (pathOf path) lower
      else Table.lookupPath (pathOf path) patched := by
  by_cases hm : path ∈ applied ∧ Table.lookupPath (pathOf path) patched = none
  · rw [if_pos hm]
    split
    · rfl
    · rename_i hn
      rw [mem_reverted, ← and_assoc, not_and, Classical.not_not] at hn
      rw [hm.2, hn hm]
  · rw [if_neg hm, if_neg fun h => hm ⟨(mem_reverted.1 h).1, (mem_reverted.1 h).2.1⟩]

end

theorem roundTrips_iff {α : Type} [Shaped α] [Inhabited α] {schema : Schema} {text file : String}
    {report : Report} {config : α} {d : Document} {lower patched : Table}
    (hdoc : Document.read? text = some d) (hlower : toTable (default : α) = .ok lower)
    (hpatched : toTable config = .ok patched)
    (happlied : ∀ path ∈ report.appliedPaths, ∃ leaf, (path, leaf) ∈ schema.leaves) :
    RoundTrips schema text file report config ↔ ∃ (again : α) (reloaded : Table),
      readBase (report.appliedPaths.foldl (writeLeaf patched) d).text file true = .ok again ∧
        toTable again = .ok reloaded ∧ ∀ path leaf, (path, leaf) ∈ schema.leaves →
          Table.lookupPath (pathOf path) reloaded =
            if path ∈ reverted patched lower report.appliedPaths then
              Table.lookupPath (pathOf path) lower
            else Table.lookupPath (pathOf path) patched := by
  have hwrite : writeBack text file report config =
      .ok (report.appliedPaths.foldl (writeLeaf patched) d).text := by
    simp only [writeBack, hdoc, hpatched]
    rfl
  have hrevert : reverting report config = .ok (reverted patched lower report.appliedPaths) := by
    have initial : toTable (Configuration.initial : α) = .ok lower := hlower
    simp only [reverting, hpatched, initial]
    rfl
  constructor
  · rintro ⟨written, again, _, _, _, reloaded, hwrite', hread, hrevert', hlower', hpatched', hreloaded,
      hleaves, _, _⟩
    obtain rfl := Except.ok.inj (hwrite.symm.trans hwrite')
    obtain rfl := Except.ok.inj (hrevert.symm.trans hrevert')
    obtain rfl := Except.ok.inj (hlower.symm.trans hlower')
    obtain rfl := Except.ok.inj (hpatched.symm.trans hpatched')
    exact ⟨again, reloaded, hread, hreloaded, hleaves⟩
  · rintro ⟨again, reloaded, hread, hreloaded, hleaves⟩
    refine ⟨_, again, _, lower, patched, reloaded, hwrite, hread, hrevert, hlower, hpatched, hreloaded,
      hleaves, (nodup_eraseDups _).filter _, fun path => ?_⟩
    constructor
    · intro hm
      have applied := (mem_reverted.1 hm).1
      obtain ⟨leaf, hleaf⟩ := happlied path applied
      exact ⟨applied, (mem_reverted_iff_changed (hleaves path leaf hleaf)).1 hm⟩
    · rintro ⟨applied, changed⟩
      obtain ⟨leaf, hleaf⟩ := happlied path applied
      exact (mem_reverted_iff_changed (hleaves path leaf hleaf)).2 changed

theorem lookupPath_reloaded_iff {schema : Schema} {name : String} {fields : Fields}
    (hdescribes : schema.root.describes fields) (hr : (Shape.record name fields).regular)
    {upper lower loaded patched reloaded : Table} {applied : List String}
    (hl : (Shape.record name fields).Beneath (some (.table lower))) (hu : upper.Ordered)
    (hu' : (Table.setPaths (Table.lookupPath · patched) (applied.map pathOf) upper).Ordered)
    (hp : (Shape.record name fields).Fits (.table patched))
    (h : (Shape.record name fields).Reads (.table (Table.merge lower upper)) (.table loaded))
    (h' : (Shape.record name fields).Reads (.table (Table.merge lower
      (Table.setPaths (Table.lookupPath · patched) (applied.map pathOf) upper))) (.table reloaded))
    (happlied : ∀ path ∈ applied, ∃ leaf, (path, leaf) ∈ schema.leaves) {path : String} {leaf : Leaf}
    (hleaf : (path, leaf) ∈ schema.leaves)
    (same : path ∉ applied →
      Table.lookupPath (pathOf path) patched = Table.lookupPath (pathOf path) loaded) :
    (Table.lookupPath (pathOf path) reloaded =
      if path ∈ reverted patched lower applied then Table.lookupPath (pathOf path) lower
      else Table.lookupPath (pathOf path) patched) ↔
      KeepsLeaf upper lower loaded patched applied path := by
  have hpaths : ∀ q ∈ applied.map pathOf, fields.IsLeaf q :=
    List.forall_mem_map.2 (isLeaf_of_leaves hdescribes happlied)
  have iff := reload_iff hr hl hpaths hu hu' hp h' (isLeaf_of_mem hdescribes hleaf).1 h
    fun hm => same fun applied => hm (List.mem_map_of_mem applied)
  simp only [mem_map_pathOf hdescribes happlied hleaf] at iff
  rw [revertedValue_eq]
  exact iff

section

variable {α : Type} [Shaped α] [Inhabited α] {name : String} {fields : Fields}
  (hs : Shaped.shape α = .record name fields) (hr : (Shape.record name fields).regular)
  (hu : fields.undated) {lower : Table} (hlower : toTable (default : α) = .ok lower)
  (hl : (Shape.record name fields).Beneath (some (.table lower)))

include hs hr hu hlower hl

theorem settles_of_readBase {text file : String} {d : Document} (hdoc : Document.read? text = some d)
    {upper : Table} (hd : d.denoted? = some upper) {c : α} (hc : readBase text file true = .ok c) :
    (Shape.record name fields).Accepts (.table upper) ∧ fields.Settles d.members ∧
      ∃ t, toTable c = .ok t ∧
        (Shape.record name fields).Reads (.table (Table.merge lower upper)) (.table t) := by
  have hupper : Table.read? text = some upper := by rw [Table.read?, hdoc, Option.bind_some, hd]
  obtain ⟨haccepts, loaded⟩ := accepts_of_readBase (hs.symm ▸ hr) hlower (hs.symm ▸ hl) hupper
    (Item.ordered_of_denotedEntries? _ hd) hc
  rw [hs] at haccepts loaded
  exact ⟨haccepts, Fields.settles_of_accepts haccepts hu (Document.tidy_read? hdoc) hd, loaded⟩

section

variable {d : Document} (hdistinct : d.members.Distinct) (hsettles : fields.Settles d.members)
  {patched : Table} (hp : (Shape.record name fields).Fits (.table patched))
  {applied : List String} (ha : ∀ path ∈ applied, fields.IsLeaf (pathOf path))
  (hprint : (applied.foldl (writeLeaf patched) d).Reprints)
  (hfaithful : (applied.foldl (writeLeaf patched) d).Faithful)

include hdistinct hsettles hp ha hprint hfaithful

omit hs hr hlower hl in
theorem denoted?_written {upper : Table} (hd : d.denoted? = some upper) :
    (applied.foldl (writeLeaf patched) d).denoted? =
      some (Table.setPaths (Table.lookupPath · patched) (applied.map pathOf) upper) := by
  refine denoted?_writeLeaves ha hu hsettles (fun q hq v hv => ?_) hd
  obtain ⟨path, hpath, rfl⟩ := List.mem_map.1 hq
  obtain ⟨p, hleaf, _⟩ := ha path hpath
  obtain ⟨item, hitem, denoted⟩ := itemAt?_writeLeaves ha hq hv d
  -- What the item denotes is what the tree has there, and that was set.
  have found := (settles_writeLeaves ha hu hsettles (t := patched)).lookupPath_eq
    (hfaithful.symm.trans hprint) hleaf
  rw [(touches_writeLeaves hp.ordered ha hdistinct).set _ hq, hv, hitem, Option.bind_some, denoted]
    at found
  exact found.symm

theorem exists_readBase_of_written (file : String) {upper : Table} (hd : d.denoted? = some upper)
    (haccepts : (Shape.record name fields).Accepts (.table upper)) :
    ∃ (again : α) (reloaded : Table),
      readBase (applied.foldl (writeLeaf patched) d).text file true = .ok again ∧
        toTable again = .ok reloaded ∧
        (Table.setPaths (Table.lookupPath · patched) (applied.map pathOf) upper).Ordered ∧
        (Shape.record name fields).Reads (.table (Table.merge lower
          (Table.setPaths (Table.lookupPath · patched) (applied.map pathOf) upper)))
          (.table reloaded) := by
  have denoted := denoted?_written hu hdistinct hsettles hp ha hprint hfaithful hd
  have ordered := Item.ordered_of_denotedEntries? _ denoted
  have accepts : (Shape.record name fields).Accepts
      (.table (Table.setPaths (Table.lookupPath · patched) (applied.map pathOf) upper)) := by
    refine haccepts.setPaths fun q hq => ?_
    obtain ⟨path, hpath, rfl⟩ := List.mem_map.1 hq
    obtain ⟨p, hleaf, hrecord⟩ := ha path hpath
    refine ⟨p, hleaf, fun v hv => ?_⟩
    have hat := Fields.at?_of_leaf? hleaf name
    exact Shape.accepts_of_fits (Shape.regular_of_at? hr hat) (hp.of_lookupPath hr hat hv)
  rw [← hs] at hr hl accepts ⊢
  obtain ⟨again, reloaded, hread, htable, reads⟩ :=
    readBase_of_accepts file hr hlower hl (hfaithful.trans denoted) ordered accepts
  exact ⟨again, reloaded, hread, htable, ordered, reads⟩

end

variable {schema : Schema} (hdescribes : schema.root.describes fields) {text file : String}
  {d : Document} (hdoc : Document.read? text = some d) {upper : Table} (hd : d.denoted? = some upper)
  {c config : α} (hc : readBase text file true = .ok c) {loaded patched : Table}
  (hloaded : toTable c = .ok loaded) (hpatched : toTable config = .ok patched) {report : Report}
  (happlied : ∀ path ∈ report.appliedPaths, ∃ leaf, (path, leaf) ∈ schema.leaves)
  (same : ∀ path leaf, (path, leaf) ∈ schema.leaves → path ∉ report.appliedPaths →
    Table.lookupPath (pathOf path) patched = Table.lookupPath (pathOf path) loaded)
  (hprint : (report.appliedPaths.foldl (writeLeaf patched) d).Reprints)
  (hfaithful : (report.appliedPaths.foldl (writeLeaf patched) d).Faithful)

include hdescribes hdoc hd hc hloaded hpatched happlied same hprint hfaithful

theorem roundTrips_iff_keeps : RoundTrips schema text file report config ↔
    Keeps schema upper lower loaded patched report.appliedPaths := by
  have hp : (Shape.record name fields).Fits (.table patched) := hs ▸ fits_toTable hpatched
  obtain ⟨haccepts, hsettles, t, ht, hreads⟩ := settles_of_readBase hs hr hu hlower hl hdoc hd hc
  obtain rfl := Except.ok.inj (hloaded.symm.trans ht)
  obtain ⟨again, reloaded, hread, hreloaded, hordered, hreads'⟩ :=
    exists_readBase_of_written hs hr hu hlower hl (Document.distinct_read? hdoc) hsettles hp
      (isLeaf_of_leaves hdescribes happlied) hprint hfaithful file hd haccepts
  have kept (path : String) (leaf : Leaf) (hleaf : (path, leaf) ∈ schema.leaves) :=
    lookupPath_reloaded_iff hdescribes hr hl (Item.ordered_of_denotedEntries? _ hd) hordered hp hreads
      hreads' happlied hleaf (same path leaf hleaf)
  rw [roundTrips_iff hdoc hlower hpatched happlied]
  constructor
  · rintro ⟨again', reloaded', hread', hreloaded', hleaves⟩ path leaf hleaf
    obtain rfl := Except.ok.inj (hread.symm.trans hread')
    obtain rfl := Except.ok.inj (hreloaded.symm.trans hreloaded')
    exact (kept path leaf hleaf).1 (hleaves path leaf hleaf)
  · intro keeps
    exact ⟨again, reloaded, hread, hreloaded, fun path leaf hleaf =>
      (kept path leaf hleaf).2 (keeps path leaf hleaf)⟩

end

end Patch

end DottedPatch
