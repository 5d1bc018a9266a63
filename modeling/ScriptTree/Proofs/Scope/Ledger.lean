import Mathlib.Data.List.Find
import Mathlib.Data.List.Nodup
import Mathlib.Data.List.Perm.Basic
import Mathlib.Data.List.Perm.Subperm
import ScriptTree.Proofs.Scope.Build

/-!
Scopes as a ledger. Whatever was built, and in whatever order: each scope that was built has entered
once what is read in its block, and nothing else is entered.
-/

namespace ScriptTree

open Node

namespace Binding

-- The declaration without its uses.
def bare (b : Binding) : Binding :=
  .declared b.kind b.location b.name

-- Records several uses.
def referAll (ls : List Location) (b : Binding) : Binding :=
  ls.foldl (fun b l => b.refer l) b

-- The mark agrees with the list.
def IsMarked (b : Binding) : Prop :=
  b.isReferenced ↔ b.references ≠ []

theorem map_name_bare (bs : List Binding) : (bs.map bare).map (·.name) = bs.map (·.name) := by
  rw [List.map_map]
  rfl

variable (ls : List Location) (b : Binding)

@[simp]
theorem referAll_name : (b.referAll ls).name = b.name := by
  induction ls generalizing b
  case nil => rfl
  case cons l ls ih => exact ih (b.refer l)

@[simp]
theorem referAll_bare : (b.referAll ls).bare = b.bare := by
  induction ls generalizing b
  case nil => rfl
  case cons l ls ih => exact ih (b.refer l)

@[simp]
theorem referAll_references : (b.referAll ls).references = b.references ++ ls := by
  induction ls generalizing b
  case nil => exact (List.append_nil _).symm
  case cons l ls ih =>
    rw [referAll, List.foldl_cons, ← referAll, ih, refer, List.append_assoc, List.singleton_append]

theorem referAll_append (ms : List Location) :
    b.referAll (ls ++ ms) = (b.referAll ls).referAll ms :=
  List.foldl_append

theorem IsMarked.referAll {b : Binding} (h : b.IsMarked) : (b.referAll ls).IsMarked := by
  induction ls generalizing b
  case nil => exact h
  case cons l ls ih => exact ih (by simp [IsMarked, refer])

end Binding

-- The places at which a name is read, among some that are found.
def Occurrence.reads (name : String) (os : List Occurrence) : List Location :=
  (os.filter (·.reference? = some name)).map (·.location)

theorem Occurrence.reads_cons {o : Occurrence} {os : List Occurrence} {found : String}
    (ho : o.reference? = some found) (name : String) :
    reads name (o :: os) = (if name = found then [o.location] else []) ++ reads name os := by
  rw [reads, List.filter_cons, ho]
  by_cases h : name = found <;> simp [reads, h, Ne.symm]

namespace Node

variable {tree n : Node} {p l : Location} {name : String}

-- The places at which a name is read in the block at a place, but in no block inside of it.
def readsIn (tree : Node) (p : Location) (name : String) : List Location :=
  match tree.at? p with
  | some n => Occurrence.reads name (n.occurrences 0 (tree.parentAt? p) p)
  | none   => []

theorem mem_readsIn (h : tree.HasPlainFunctions) (hn : tree.at? p = some n) (hb : n.isBlock) :
    l ∈ tree.readsIn p name ↔ tree.IsIn l p ∧ tree.Reads l name := by
  rw [← exists_reference? h hn hb, readsIn, hn]
  simp only [Occurrence.reads, List.mem_map, List.mem_filter, decide_eq_true_eq]
  exact exists_congr fun o => by rw [and_assoc, and_comm (a := o.location = l)]

theorem nodup_readsIn (tree : Node) (p : Location) (name : String) : (tree.readsIn p name).Nodup := by
  rw [readsIn]
  split
  · exact (nodup_occurrences _ _ _ _).sublist (List.filter_sublist.map _)
  · exact List.nodup_nil

end Node

-- What is found in a block are declarations, and no uses.
theorem bare_of_mem_declarations {n : Node} {p : Location} {owner : Option Owner} {b : Binding}
    (hb : b ∈ n.declarations p owner) : b.bare = b := by
  rcases List.mem_append.mp hb with hp | hv
  · cases owner
    case none => cases hp
    case some o =>
      have ⟨_, _, _, _, _, _, hb⟩ := Owner.mem_parameters.mp hp
      exact hb ▸ rfl
  · have ⟨o, _, hb⟩ := List.mem_filterMap.mp hv
    rcases Occurrence.binding?_eq_some.mp hb with
      ⟨_, _, _, _, _, _, _, _, rfl⟩ | ⟨_, _, _, _, _, _, rfl⟩ <;> rfl

namespace Scopes

variable {tree n : Node} {ss : Scopes} {p l : Location} {name : String} {id i k : ScopeId}

-- Finding the scope that binds a name takes no more than the plan of the scopes.
theorem binder?_of_plan {ss' : Scopes} (h : ss'.map Scope.plan = ss.map Scope.plan) (id : ScopeId)
    (name : String) : ss'.binder? id name = ss.binder? id name := by
  have hat (i : ScopeId) : ss'[i]?.map Scope.plan = ss[i]?.map Scope.plan := by
    rw [← List.getElem?_map, h, List.getElem?_map]
  have houter (s : Option Scope) : s.map (·.outer) = (s.map Scope.plan).map (·.2.1) := by
    cases s <;> rfl
  have hbinds (s : Option Scope) :
      s.any (·.binds name) = (s.map Scope.plan).any fun plan => decide (name ∈ plan.2.2) := by
    cases s
    case none => rfl
    case some s =>
      rw [Option.any_some, Option.map_some, Option.any_some, Bool.eq_iff_iff, Scope.binds_iff,
        decide_eq_true_iff]
      rfl
  simp only [binder?, houter, hbinds, hat]

-- A use is recorded with the bindings of its name in one scope.
theorem getElem?_refer (ss : Scopes) (id : ScopeId) (name : String) (l : Location) (i : ScopeId) :
    (ss.refer id name l)[i]? = ss[i]?.map fun s =>
      { s with bindings := s.bindings.map fun b =>
        b.referAll (if b.name = name ∧ ss.binder? id name = some i then [l] else []) } := by
  have hsame (s : Scope) : { s with bindings := s.bindings.map fun b => b.referAll [] } = s := by
    simp [Binding.referAll]
  rw [refer]
  cases hb : ss.binder? id name
  case none => simp [hsame]
  case some j =>
    rw [List.getElem?_modify]
    by_cases hij : j = i
    case neg => simp [hij, hsame]
    case pos =>
      subst hij
      cases ss[j]?
      case none => rfl
      case some s =>
        simp only [Option.map_eq_map, Option.map_some, ↓reduceIte, Scope.refer, beq_iff_eq, and_true]
        congr 3
        funext b
        split <;> rfl

theorem getElem?_foldl_record (ss : Scopes) (id : ScopeId) (os : List Occurrence) (i : ScopeId) :
    (os.foldl (record id) ss)[i]? = ss[i]?.map fun s =>
      { s with bindings := s.bindings.map fun b =>
        b.referAll (if ss.binder? id b.name = some i then Occurrence.reads b.name os else []) } := by
  induction os generalizing ss
  case nil => simp [Occurrence.reads, Binding.referAll]
  case cons o os ih =>
    rw [List.foldl_cons, ih]
    rw [record]
    cases ho : o.reference?
    case none => simp [Occurrence.reads, ho]
    case some name =>
      simp only [getElem?_refer, Option.map_map, binder?_of_plan (map_plan_refer ss id name o.location)]
      congr 2
      funext s
      simp only [List.map_map, Function.comp_def, Binding.referAll_name]
      congr 3
      funext b
      rw [← Binding.referAll_append, Occurrence.reads_cons ho]
      by_cases hb : b.name = name <;> simp only [hb, true_and, false_and, ↓reduceIte]
      case pos => split <;> rfl
      case neg => rw [List.nil_append, List.nil_append]

-- What the scope with some number has to enter of a name: where it is read in its block.
def due (tree : Node) (ss : Scopes) (k : ScopeId) (name : String) : List Location :=
  (ss[k]?.map fun s => tree.readsIn s.block name).getD []

-- The uses that belong to a name in a scope: what is due of all scopes from which the name leads there.
def entries (tree : Node) (ss : Scopes) (i : ScopeId) (name : String) : List Location :=
  (List.range ss.length).flatMap fun k =>
    if ss.binder? k name = some i then ss.due tree k name else []

-- The scopes of a tree that was not changed since the first of them was built.
structure Kept (tree : Node) (ss : Scopes) : Prop where
  nested   : Nested tree ss
  earlier  : ∀ k (s : Scope), ss[k]? = some s → ∀ i ∈ s.outer, i < k
  declared : ∀ s ∈ ss, ∃ n, tree.at? s.block = some n ∧ n.isBlock ∧
    s.bindings.map Binding.bare =
      ((n.declarations s.block (tree.ownerAt? s.block)).foldl Scope.declare
        { block := s.block, outer := s.outer }).bindings
  entered  : ∀ i (s : Scope), ss[i]? = some s → ∀ b ∈ s.bindings,
    b.IsMarked ∧ b.references = ss.entries tree i b.name

theorem Kept.nil (tree : Node) : Kept tree [] :=
  ⟨nofun, nofun, nofun, nofun⟩

-- Whether a name is found, and where, does not depend on scopes that are built later.
theorem binder?_append (h : ∀ i ∈ ss.chain (some id), i < ss.length) (ss' : Scopes) :
    Scopes.binder? (ss ++ ss') id name = ss.binder? id name := by
  have hid : (ss ++ ss')[id]? = ss[id]? := List.getElem?_append_left (h id (.head _))
  rw [binder?, hid]
  refine List.find?_congr fun i hi => ?_
  rw [List.getElem?_append_left (h i hi)]

theorem Kept.lt_of_mem_chain (h : Kept tree ss) (hk : k < ss.length) :
    ∀ i ∈ ss.chain (some k), i < ss.length := by
  intro i hi
  rcases List.mem_cons.mp hi with rfl | hi
  · exact hk
  · have hs := List.getElem?_eq_getElem hk
    rw [hs, Option.map_some, Option.getD_some] at hi
    exact (h.earlier k _ hs i hi).trans hk

theorem mem_chain_of_binder? (h : ss.binder? k name = some i) : i ∈ ss.chain (some k) :=
  List.mem_of_find?_eq_some h

-- Nor does what is due of the scopes that were there before.
theorem Kept.entries_concat (h : Kept tree ss) (s : Scope) (i : ScopeId) (name : String) :
    entries tree (ss ++ [s]) i name = ss.entries tree i name ++
      if Scopes.binder? (ss ++ [s]) ss.length name = some i then tree.readsIn s.block name else [] := by
  have hlength : (ss ++ [s]).length = ss.length + 1 := by simp
  rw [entries, hlength, List.range_succ, List.flatMap_append, List.flatMap_singleton]
  congr 1
  · refine List.flatMap_congr fun k hk => ?_
    have hk := List.mem_range.mp hk
    rw [binder?_append (h.lt_of_mem_chain hk), due, due, List.getElem?_append_left hk]
  · simp [due]

-- Nothing belongs to a scope that is not there yet.
theorem Kept.entries_of_le (h : Kept tree ss) (hi : ss.length ≤ i) : ss.entries tree i name = [] := by
  rw [entries, List.flatMap_eq_nil_iff]
  intro k hk
  exact if_neg fun hb =>
    Nat.not_lt.mpr hi (h.lt_of_mem_chain (List.mem_range.mp hk) i (mem_chain_of_binder? hb))

theorem entries_of_plan {ss' : Scopes} (h : ss'.map Scope.plan = ss.map Scope.plan) (i : ScopeId)
    (name : String) : ss'.entries tree i name = ss.entries tree i name := by
  have hdue (k : ScopeId) : ss'.due tree k name = ss.due tree k name := by
    have : ss'[k]?.map (·.block) = ss[k]?.map (·.block) := by
      rw [← List.getElem?_map, ← List.getElem?_map, map_block_of_plan h]
    have hmap (s : Option Scope) : (s.map fun s => tree.readsIn s.block name) =
        (s.map (·.block)).map fun p => tree.readsIn p name := by
      cases s <;> rfl
    rw [due, due, hmap, hmap, this]
  have hlength : ss'.length = ss.length := by simpa using congrArg List.length h
  simp only [entries, hdue, hlength, binder?_of_plan h]

theorem Span.lt_length {ids : List ScopeId} {places : List Location} (h : ss.Span ids places) :
    ∀ i ∈ ids, i < ss.length := by
  intro i hi
  have ⟨p, _, hp⟩ := List.mem_map.mp (h ▸ List.mem_map_of_mem (f := ss.blockOf?) hi)
  by_contra hle
  rw [blockOf?, List.getElem?_eq_none (Nat.not_lt.mp hle)] at hp
  cases hp

theorem Nested.concat (h : Nested tree ss) {s : Scope}
    (hs : ss.Span s.outer (tree.around isBlock s.block)) : Nested tree (ss ++ [s]) := by
  have hgrows : ss.map (·.block) <+: (ss ++ [s]).map (·.block) := by simp
  exact List.forall_mem_append.mpr
    ⟨fun t ht => (h t ht).of_isPrefix hgrows, List.forall_mem_singleton.mpr (hs.of_isPrefix hgrows)⟩

-- Recording uses changes nothing else.
theorem of_mem_foldl_record {os : List Occurrence} {s : Scope}
    (hs : (os.foldl (record id) ss)[i]? = some s) : ∃ t : Scope, ss[i]? = some t ∧
      s.block = t.block ∧ s.outer = t.outer ∧ s.bindings = t.bindings.map fun b =>
        b.referAll (if ss.binder? id b.name = some i then Occurrence.reads b.name os else []) := by
  rw [getElem?_foldl_record] at hs
  have ⟨t, ht, hs⟩ := Option.map_eq_some_iff.mp hs
  subst hs
  exact ⟨t, ht, rfl, rfl, rfl⟩

theorem map_plan_foldl_record (ss : Scopes) (id : ScopeId) (os : List Occurrence) :
    (os.foldl (record id) ss).map Scope.plan = ss.map Scope.plan := by
  refine List.ext_getElem? fun i => ?_
  rw [List.getElem?_map, List.getElem?_map, getElem?_foldl_record]
  cases ss[i]? <;> simp [Scope.plan]

-- The scope of one more block is built, whether or not the block had one.
theorem Kept.built (h : Kept tree ss) (hn : tree.at? p = some n) (hb : n.isBlock)
    {outer : List ScopeId} (ho : ss.Span outer (tree.around isBlock p)) :
    let built := ss.build n p (tree.ownerAt? p) outer
    built.map (·.block) = ss.map (·.block) ++ [p] ∧ Kept tree built := by
  let scope := (n.declarations p (tree.ownerAt? p)).foldl Scope.declare { block := p, outer }
  have hscope : Scope.Gains { block := p, outer } _ scope := Scope.foldl_declare_gains _ _
  have hplan := map_plan_foldl_record (ss ++ [scope]) ss.length
    (n.occurrences 0 ((tree.ownerAt? p).map (·.node)) p)
  have hreads name : Occurrence.reads name (n.occurrences 0 ((tree.ownerAt? p).map (·.node)) p) =
      tree.readsIn scope.block name := by
    rw [hscope.block, readsIn, hn, ownerAt?_node]
  have hnested : Nested tree (ss ++ [scope]) := h.nested.concat (by rwa [hscope.outer, hscope.block])
  have hcases {i : ScopeId} {s : Scope} (hs : (ss ++ [scope])[i]? = some s) :
      ss[i]? = some s ∨ i = ss.length ∧ s = scope := by
    rw [List.getElem?_append] at hs
    split at hs
    case isTrue => exact .inl hs
    case isFalse hlt =>
      rw [List.getElem?_singleton] at hs
      split at hs
      case isTrue hi =>
        have hi := Nat.le_antisymm (Nat.sub_eq_zero_iff_le.mp hi) (Nat.not_lt.mp hlt)
        exact .inr ⟨hi, (Option.some.inj hs).symm⟩
      case isFalse => cases hs
  have hbare' : ∀ b ∈ scope.bindings, b.bare = b := fun b hb =>
    bare_of_mem_declarations ((hscope.mem b hb).resolve_left List.not_mem_nil)
  refine ⟨?_, hnested.congr hplan, fun k s hs => ?_, fun s hs => ?_, fun i s hs b hb => ?_⟩
  · rw [build, map_block_of_plan hplan]
    simp [hscope.block]
  · obtain ⟨t, ht, _, houter, _⟩ := of_mem_foldl_record hs
    rw [houter]
    rcases hcases ht with ht | ⟨rfl, rfl⟩
    · exact h.earlier k t ht
    · exact hscope.outer ▸ ho.lt_length
  · obtain ⟨i, hi⟩ := List.mem_iff_getElem?.mp hs
    obtain ⟨t, ht, hblock, houter, hbindings⟩ := of_mem_foldl_record hi
    have hbare : s.bindings.map Binding.bare = t.bindings.map Binding.bare := by
      simp [hbindings]
    rw [hbare, hblock, houter]
    rcases hcases ht with ht | ⟨rfl, rfl⟩
    · exact h.declared t (List.mem_of_getElem? ht)
    · rw [hscope.block, hscope.outer]
      exact ⟨n, hn, hb, (List.map_congr_left hbare').trans (List.map_id _)⟩
  · obtain ⟨t, ht, _, _, hbindings⟩ := of_mem_foldl_record hs
    obtain ⟨c, hc, hbc⟩ := List.mem_map.mp (hbindings ▸ hb)
    have hentries : Scopes.entries tree (ss.build n p (tree.ownerAt? p) outer) i b.name =
        Scopes.entries tree (ss ++ [scope]) i b.name := entries_of_plan hplan i b.name
    rw [hentries, h.entries_concat, ← hbc, hreads, Binding.referAll_references, Binding.referAll_name]
    rcases hcases ht with ht | ⟨rfl, rfl⟩
    · obtain ⟨hmarked, hrefs⟩ := h.entered i t ht c hc
      exact ⟨hmarked.referAll _, by rw [hrefs]⟩
    · have hc : c = c.bare := (hbare' c hc).symm
      rw [h.entries_of_le le_rfl, show c.references = [] from congrArg Binding.references hc]
      exact ⟨.referAll _ (by rw [hc]; simp [Binding.IsMarked, Binding.bare, Binding.declared]), rfl⟩

/-! ### What is reported -/

theorem Kept.binds (h : Kept tree ss) (hplain : tree.HasPlainFunctions) {s : Scope} (hs : s ∈ ss)
    (name : String) : s.binds name ↔ tree.Binds s.block name := by
  obtain ⟨n, hn, hb, hbare⟩ := h.declared s hs
  rw [Scope.binds_iff, ← Binding.map_name_bare, hbare, ← Scope.binds_iff, (Scope.foldl_declare_gains _ _).binds, Binds]
  constructor
  · rintro (hempty | ⟨b, hb', rfl⟩)
    · cases hempty
    · obtain ⟨kind, l, _, hd, hdecl⟩ := (mem_declarations hplain hn hb).mp hb'
      exact ⟨kind, l, hd ▸ hdecl⟩
  · rintro ⟨kind, l, hd⟩
    exact .inr ⟨_, (mem_declarations hplain hn hb).mpr ⟨kind, l, name, rfl, hd⟩, rfl⟩

theorem mem_due (h : Kept tree ss) (hplain : tree.HasPlainFunctions) :
    l ∈ ss.due tree k name ↔ ∃ s : Scope, ss[k]? = some s ∧ tree.IsIn l s.block ∧ tree.Reads l name := by
  rw [due]
  cases hs : ss[k]?
  case none => simp
  case some s =>
    have ⟨n, hn, hb, _⟩ := h.declared s (List.mem_of_getElem? hs)
    simp [mem_readsIn hplain hn hb]

theorem nodup_due (tree : Node) (ss : Scopes) (k : ScopeId) (name : String) :
    (ss.due tree k name).Nodup := by
  rw [due]
  cases ss[k]?
  case none => exact List.nodup_nil
  case some s => exact nodup_readsIn tree s.block name

theorem count_flatMap_of_nodup {g : ScopeId → List Location} (hg : ∀ k, (g k).Nodup) (l : Location)
    (ks : List ScopeId) : (ks.flatMap g).count l = ks.countP fun k => decide (l ∈ g k) := by
  induction ks
  case nil => rfl
  case cons k ks ih =>
    rw [List.flatMap_cons, List.count_append, ih, (hg k).count, List.countP_cons, Nat.add_comm]
    simp

end Scopes

open Classical in
-- How often the scopes report what, and why.
structure Scopes.Tallied (tree : Node) (ss : Scopes) : Prop where
  nested : ss.Nested tree
  binds  : ∀ s ∈ ss, ∀ name, s.binds name ↔ tree.Binds s.block name
  -- A use is listed once for each scope built for the block that the use is in, if the name leads
  -- from there to the binding.
  listed : ∀ i (s : Scope), ss[i]? = some s → ∀ b ∈ s.bindings, ∀ l,
    b.references.count l = (List.range ss.length).countP fun k =>
      ss.binder? k b.name = some i ∧
        ∃ t : Scope, ss[k]? = some t ∧ tree.IsIn l t.block ∧ tree.Reads l b.name
  marked : ∀ s ∈ ss, ∀ b ∈ s.bindings, b.IsMarked
  -- What is used in the block itself is listed at once.
  own    : ∀ s ∈ ss, ∀ b ∈ s.bindings, ∀ l, tree.IsIn l s.block → tree.Reads l b.name →
    l ∈ b.references ∧ b.isReferenced

-- The same scopes under other numbers, but for what they list.
structure Scopes.Renumbers (f : ScopeId → ScopeId) (ss ss' : Scopes) : Prop where
  length    : ss'.length = ss.length
  injective : ∀ i < ss.length, ∀ j < ss.length, f i = f j → i = j
  frames    : ∀ i < ss.length, ss'[f i]?.map (fun s => (s.block, s.outer)) =
    ss[i]?.map fun s => (s.block, s.outer.map f)

-- The same bindings with the same uses, in whatever order these were recorded.
structure Scope.Alike (s s' : Scope) : Prop where
  declared : s'.bindings.map Binding.bare = s.bindings.map Binding.bare
  used     : ∀ b ∈ s.bindings, ∀ b' ∈ s'.bindings, b'.name = b.name →
    b'.isReferenced = b.isReferenced ∧ b'.references.Perm b.references

namespace Scopes

variable {tree : Node} {ss ss' : Scopes} {f : ScopeId → ScopeId} {i k : ScopeId}

theorem binder?_self {s : Scope} {name : String} (hs : ss[i]? = some s) (hb : s.binds name) :
    ss.binder? i name = some i := by
  rw [binder?, List.find?_cons_of_pos]
  rw [hs, Option.any_some]
  exact hb

theorem Kept.tallied (h : Kept tree ss) (hplain : tree.HasPlainFunctions) : ss.Tallied tree := by
  classical
  have hlisted i (s : Scope) (hs : ss[i]? = some s) (b : Binding) (hb : b ∈ s.bindings)
      (l : Location) : b.references.count l = (List.range ss.length).countP fun k =>
        ss.binder? k b.name = some i ∧
          ∃ t : Scope, ss[k]? = some t ∧ tree.IsIn l t.block ∧ tree.Reads l b.name := by
    rw [(h.entered i s hs b hb).right, entries, count_flatMap_of_nodup]
    · refine List.countP_congr fun k _ => ?_
      rw [decide_eq_true_iff, decide_eq_true_iff]
      split
      · simp [*, mem_due h hplain]
      · simp [*]
    · intro k
      split
      · exact nodup_due tree ss k b.name
      · exact List.nodup_nil
  refine ⟨h.nested, fun s hs => h.binds hplain hs, hlisted, fun s hs b hb => ?_,
    fun s hs b hb l hin hread => ?_⟩
  · have ⟨i, hi⟩ := List.mem_iff_getElem?.mp hs
    exact (h.entered i s hi b hb).left
  · have ⟨i, hi⟩ := List.mem_iff_getElem?.mp hs
    have ⟨hmarked, hrefs⟩ := h.entered i s hi b hb
    have hl : l ∈ b.references := by
      have hbinds : s.binds b.name := Scope.binds_iff.mpr (List.mem_map_of_mem hb)
      rw [hrefs, entries, List.mem_flatMap]
      refine ⟨i, List.mem_range.mpr (List.getElem?_eq_some_iff.mp hi).1, ?_⟩
      rw [if_pos (binder?_self hi hbinds), mem_due h hplain]
      exact ⟨s, hi, hin, hread⟩
    exact ⟨hl, hmarked.mpr (List.ne_nil_of_mem hl)⟩

theorem bindings_foldl_declare {s t : Scope} (h : s.bindings = t.bindings) (bs : List Binding) :
    (bs.foldl Scope.declare s).bindings = (bs.foldl Scope.declare t).bindings := by
  induction bs generalizing s t
  case nil => exact h
  case cons b bs ih =>
    refine ih ?_
    rw [Scope.declare, Scope.declare, Scope.binds, Scope.binds, Scope.get?, Scope.get?, h]
    split
    · exact h
    · rfl

theorem Kept.bare (h : Kept tree ss) (h' : Kept tree ss') {s s' : Scope} (hs : s ∈ ss) (hs' : s' ∈ ss')
    (hb : s'.block = s.block) : s'.bindings.map Binding.bare = s.bindings.map Binding.bare := by
  have ⟨n, hn, _, hbare⟩ := h.declared s hs
  have ⟨n', hn', _, hbare'⟩ := h'.declared s' hs'
  rw [hb, hn] at hn'
  cases hn'
  rw [hbare, hbare', hb]
  exact bindings_foldl_declare
    (s := { block := s.block, outer := s'.outer }) (t := { block := s.block, outer := s.outer }) rfl _

theorem Renumbers.getElem? (hf : Renumbers f ss ss') {s : Scope} (hs : ss[i]? = some s) :
    ∃ s' : Scope, ss'[f i]? = some s' ∧ s'.block = s.block ∧ s'.outer = s.outer.map f := by
  have := hf.frames i (List.getElem?_eq_some_iff.mp hs).1
  rw [hs, Option.map_some] at this
  have ⟨s', hs', heq⟩ := Option.map_eq_some_iff.mp this
  exact ⟨s', hs', congrArg Prod.fst heq, congrArg Prod.snd heq⟩

theorem Renumbers.binds (hf : Renumbers f ss ss') (h : Kept tree ss) (h' : Kept tree ss')
    (hi : i < ss.length) (name : String) :
    ss'[f i]?.any (·.binds name) = ss[i]?.any (·.binds name) := by
  have hs := List.getElem?_eq_getElem hi
  obtain ⟨s', hs', hblock, _⟩ := hf.getElem? hs
  have hbare := h.bare h' (List.mem_of_getElem? hs) (List.mem_of_getElem? hs') hblock
  rw [hs, hs', Option.any_some, Option.any_some, Bool.eq_iff_iff, Scope.binds_iff, Scope.binds_iff,
    ← Binding.map_name_bare, hbare, Binding.map_name_bare]

-- A name leads to the same scope.
theorem Renumbers.binder? (hf : Renumbers f ss ss') (h : Kept tree ss) (h' : Kept tree ss')
    (hk : k < ss.length) (name : String) :
    ss'.binder? (f k) name = (ss.binder? k name).map f := by
  have hs := List.getElem?_eq_getElem hk
  have ⟨s', hs', _, houter⟩ := hf.getElem? hs
  have hchain : ss'.chain (some (f k)) = (ss.chain (some k)).map f := by
    rw [chain, chain, hs', hs, Option.map_some, Option.map_some, Option.getD_some, Option.getD_some,
      houter, List.map_cons]
  show (ss'.chain (some (f k))).find? _ = _
  rw [hchain, List.find?_map]
  congr 1
  exact List.find?_congr fun i hi => hf.binds h h' (h.lt_of_mem_chain hk i hi) name

theorem Renumbers.range (hf : Renumbers f ss ss') (h : ∀ i < ss.length, f i < ss.length) :
    (List.range ss'.length).Perm ((List.range ss.length).map f) := by
  have hnodup : ((List.range ss.length).map f).Nodup :=
    List.Nodup.map_on (fun i hi j hj => hf.injective i (List.mem_range.mp hi) j (List.mem_range.mp hj))
      List.nodup_range
  have hsub : (List.range ss.length).map f ⊆ List.range ss'.length := by
    intro j hj
    have ⟨i, hi, hij⟩ := List.mem_map.mp hj
    rw [hf.length]
    exact hij ▸ List.mem_range.mpr (h i (List.mem_range.mp hi))
  refine ((hnodup.subperm hsub).perm_of_length_le ?_).symm
  rw [List.length_map, List.length_range, List.length_range, hf.length]

theorem Renumbers.entries (hf : Renumbers f ss ss') (h : Kept tree ss) (h' : Kept tree ss')
    (hi : i < ss.length) (name : String) :
    (ss'.entries tree (f i) name).Perm (ss.entries tree i name) := by
  have hlt j (hj : j < ss.length) : f j < ss.length := by
    have ⟨s', hs', _⟩ := hf.getElem? (List.getElem?_eq_getElem hj)
    exact hf.length ▸ (List.getElem?_eq_some_iff.mp hs').1
  refine ((hf.range hlt).flatMap fun _ _ => .refl _).trans (.of_eq ?_)
  rw [List.flatMap_map, Scopes.entries]
  refine List.flatMap_congr fun k hk => ?_
  have hk := List.mem_range.mp hk
  have hs := List.getElem?_eq_getElem hk
  have ⟨s', hs', hblock, _⟩ := hf.getElem? hs
  have hdue : ss'.due tree (f k) name = ss.due tree k name := by
    rw [due, due, hs', hs, Option.map_some, Option.map_some, hblock]
  have hleads : (ss.binder? k name).map f = some (f i) ↔ ss.binder? k name = some i := by
    constructor
    · intro hb
      have ⟨j, hj, hij⟩ := Option.map_eq_some_iff.mp hb
      have hj' := h.lt_of_mem_chain hk j (mem_chain_of_binder? hj)
      exact hf.injective j hj' i hi hij ▸ hj
    · exact fun hb => hb ▸ rfl
  simp only [hf.binder? h h' hk, hdue, hleads]

-- The order in which scopes were built makes no difference to what they report.
theorem Kept.alike (h : Kept tree ss) (h' : Kept tree ss') (hf : Renumbers f ss ss') {s : Scope}
    (hs : ss[i]? = some s) : ∃ s', ss'[f i]? = some s' ∧ s.Alike s' := by
  have ⟨s', hs', hblock, _⟩ := hf.getElem? hs
  refine ⟨s', hs', h.bare h' (List.mem_of_getElem? hs) (List.mem_of_getElem? hs') hblock,
    fun b hb b' hb' hname => ?_⟩
  have ⟨hmarked, hrefs⟩ := h.entered i s hs b hb
  have ⟨hmarked', hrefs'⟩ := h'.entered (f i) s' hs' b' hb'
  have hperm : b'.references.Perm b.references := by
    rw [hrefs, hrefs', hname]
    exact hf.entries h h' (List.getElem?_eq_some_iff.mp hs).1 b.name
  refine ⟨?_, hperm⟩
  rw [Binding.IsMarked] at hmarked hmarked'
  rw [Bool.eq_iff_iff, hmarked, hmarked', ne_eq, ne_eq, ← List.length_eq_zero_iff, hperm.length_eq,
    List.length_eq_zero_iff]

end Scopes
end ScriptTree
