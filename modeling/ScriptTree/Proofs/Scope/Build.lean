import ScriptTree.Proofs.Scope.Declares

/-!
What building a scope does to the scopes that there are: it adds one, which binds what its block
declares, and it records the names read in the block with the bindings that they have.
-/

namespace ScriptTree

open Node

namespace Scope

variable {s : Scope} {name : String}

-- What is fixed once a scope is built.
def plan (s : Scope) : Location × List ScopeId × List String :=
  (s.block, s.outer, s.bindings.map (·.name))

theorem binds_iff : s.binds name ↔ name ∈ s.bindings.map (·.name) := by
  simp [binds, get?]

theorem plan_refer (name : String) (l : Location) (s : Scope) : (s.refer name l).plan = s.plan := by
  have hname (b : Binding) : (if b.name == name then b.refer l else b).name = b.name := by
    split <;> rfl
  simp only [plan, refer, List.map_map, Function.comp_def, hname]

-- A scope to which some declarations were added.
structure Gains (s : Scope) (bs : List Binding) (t : Scope) : Prop where
  block : t.block = s.block
  outer : t.outer = s.outer
  names : (s.bindings.map (·.name)).Nodup → (t.bindings.map (·.name)).Nodup
  binds : ∀ name, t.binds name ↔ s.binds name ∨ ∃ b ∈ bs, b.name = name
  mem   : ∀ b ∈ t.bindings, b ∈ s.bindings ∨ b ∈ bs

-- A name that is bound keeps its first declaration.
theorem declare_gains (s : Scope) (b : Binding) : s.Gains [b] (s.declare b) := by
  rw [declare]
  split
  case isTrue hb =>
    refine ⟨rfl, rfl, fun h => h, fun name => ?_, fun _ => .inl⟩
    simp only [List.mem_singleton, exists_eq_left]
    exact ⟨.inl, fun h => h.elim (fun h => h) fun h => h ▸ hb⟩
  case isFalse hb =>
    rw [binds_iff] at hb
    refine ⟨rfl, rfl, fun hs => ?_, fun name => ?_, fun c hc => List.mem_append.mp hc⟩
    · rw [List.map_append, List.map_singleton, List.nodup_append]
      refine ⟨hs, List.nodup_singleton _, fun x hx y hy h => hb ?_⟩
      rwa [← List.mem_singleton.mp hy, ← h]
    · simp only [binds_iff, List.map_append, List.mem_append, List.map_singleton, List.mem_singleton,
        exists_eq_left]
      exact or_congr_right eq_comm

theorem foldl_declare_gains (bs : List Binding) (s : Scope) : s.Gains bs (bs.foldl declare s) := by
  induction bs generalizing s
  case nil => exact ⟨rfl, rfl, fun h => h, by simp, fun _ => .inl⟩
  case cons b bs ih =>
    have h₁ := s.declare_gains b
    have h₂ := ih (s.declare b)
    refine ⟨h₂.block.trans h₁.block, h₂.outer.trans h₁.outer, fun h => h₂.names (h₁.names h),
      fun name => ?_, fun c hc => ?_⟩
    · rw [List.foldl_cons, h₂.binds, h₁.binds]
      simp [or_assoc]
    · have := h₁.mem c
      rcases h₂.mem c hc with h | h <;> simp_all
      grind

theorem get?_declare (s : Scope) (b : Binding) (name : String) :
    (s.declare b).get? name = (s.get? name).or (if b.name == name then some b else none) := by
  rw [declare]
  split
  case isTrue hb =>
    split <;> rename_i hname
    · rw [beq_iff_eq] at hname
      obtain ⟨c, hc⟩ := Option.isSome_iff_exists.mp (hname ▸ hb)
      rw [hc, Option.some_or]
    · exact Option.or_none.symm
  case isFalse => simp [get?]

-- Of several declarations of a name the first is the one that is found.
theorem get?_foldl_declare (bs : List Binding) (s : Scope) (name : String) :
    (bs.foldl declare s).get? name = (s.get? name).or (bs.find? (·.name == name)) := by
  induction bs generalizing s
  case nil => exact Option.or_none.symm
  case cons b bs ih =>
    rw [List.foldl_cons, ih, get?_declare, Option.or_assoc, List.find?_cons]
    cases b.name == name <;> rfl

end Scope

namespace Scopes

variable {tree n : Node} {ss : Scopes} {p l : Location} {name : String} {id : ScopeId}

def blockOf? (ss : Scopes) (id : ScopeId) : Option Location :=
  ss[id]?.map (·.block)

-- A scope and those around it, innermost first.
def chain (ss : Scopes) : Option ScopeId → List ScopeId
  | none    => []
  | some id => id :: (ss[id]?.map (·.outer)).getD []

-- The scopes are those of the blocks at some places, one by one.
def Span (ss : Scopes) (ids : List ScopeId) (places : List Location) : Prop :=
  ids.map ss.blockOf? = places.map some

-- Around each scope are those of the blocks around its block.
def Nested (tree : Node) (ss : Scopes) : Prop :=
  ∀ s ∈ ss, ss.Span s.outer (tree.around isBlock s.block)

-- The scopes are where they should be and bind what they should.
structure Laid (tree : Node) (ss : Scopes) : Prop where
  distinct : (ss.map (·.block)).Nodup
  outer    : ∀ s ∈ ss, ss.Span s.outer (tree.around isBlock s.block)
  names    : ∀ s ∈ ss, (s.bindings.map (·.name)).Nodup
  binds    : ∀ s ∈ ss, ∀ name, s.binds name ↔ tree.Binds s.block name

-- A binding lists the places that it is used at, each once.
structure Lists (b : Binding) (isUse : Location → Prop) : Prop where
  nodup  : b.references.Nodup
  marked : b.isReferenced ↔ b.references ≠ []
  mem    : ∀ l, l ∈ b.references ↔ isUse l

-- Of the uses of a name so many are recorded, each with the binding that the name has.
def Recorded (tree : Node) (isRecorded : Location → Prop) (ss : Scopes) : Prop :=
  ∀ s ∈ ss, ∀ b ∈ s.bindings,
    Lists b fun l => isRecorded l ∧ tree.Reads l b.name ∧ tree.Binder l b.name s.block

-- Is the place in one of the blocks that have a scope?
def Covers (tree : Node) (ss : Scopes) (l : Location) : Prop :=
  ∃ block ∈ ss.map (·.block), tree.IsIn l block

theorem blockOf?_of_isPrefix {ss₁ ss₂ : Scopes} (h : ss₁.map (·.block) <+: ss₂.map (·.block))
    (hp : ss₁.blockOf? id = some p) : ss₂.blockOf? id = some p := by
  rw [blockOf?, ← List.getElem?_map] at hp ⊢
  have ⟨rest, hr⟩ := h
  rw [← hr, List.getElem?_append_left (List.getElem?_eq_some_iff.mp hp).1, hp]

theorem Span.of_isPrefix {ss₁ ss₂ : Scopes} (h : ss₁.map (·.block) <+: ss₂.map (·.block))
    {ids : List ScopeId} {places : List Location} (hs : ss₁.Span ids places) :
    ss₂.Span ids places := by
  induction ids generalizing places
  case nil => exact hs
  case cons i ids ih =>
    cases places
    case nil => cases hs
    case cons p places =>
      have ⟨hi, hs⟩ := List.cons.inj hs
      exact List.cons_eq_cons.mpr ⟨blockOf?_of_isPrefix h hi, ih hs⟩

theorem Laid.nested (h : Laid tree ss) : Nested tree ss :=
  h.outer

-- A scope spans its block and the blocks around it.
theorem Nested.span (h : Nested tree ss) (hp : ss.blockOf? id = some p) :
    ss.Span (ss.chain (some id)) (p :: tree.around isBlock p) := by
  have ⟨s, hs, hb⟩ := Option.map_eq_some_iff.mp hp
  have ho := h s (List.mem_of_getElem? hs)
  rw [hb] at ho
  rw [Span, chain, hs, List.map_cons, hp]
  exact List.cons_eq_cons.mpr ⟨rfl, ho⟩

-- The scope of a place is that of the innermost block around it, if there is any.
def IsAt (tree : Node) (ss : Scopes) (known : Option ScopeId) (l : Location) : Prop :=
  known.map ss.blockOf? = (tree.around isBlock l).head?.map some

theorem Nested.span_of_isAt (h : Nested tree ss) {known : Option ScopeId} (hk : ss.IsAt tree known l) :
    ss.Span (ss.chain known) (tree.around isBlock l) := by
  rw [IsAt] at hk
  cases hh : (tree.around isBlock l).head? <;> cases known <;> rw [hh] at hk <;> simp at hk
  case none => simp [List.head?_eq_none_iff.mp hh, chain, Span]
  case some p id =>
    rw [around_of_head? hh]
    exact h.span hk

theorem IsAt.of_isPrefix {ss₁ ss₂ : Scopes} (h : ss₁.map (·.block) <+: ss₂.map (·.block))
    {known : Option ScopeId} (hk : ss₁.IsAt tree known l) : ss₂.IsAt tree known l := by
  rw [IsAt] at hk ⊢
  cases hh : (tree.around isBlock l).head? <;> cases known <;> rw [hh] at hk <;> simp at hk ⊢
  exact blockOf?_of_isPrefix h hk

theorem map_block_of_plan {ss' : Scopes} (hp : ss'.map Scope.plan = ss.map Scope.plan) :
    ss'.map (·.block) = ss.map (·.block) := by
  simpa [Function.comp_def, Scope.plan] using congrArg (List.map Prod.fst) hp

theorem mem_of_plan {ss' : Scopes} (hp : ss'.map Scope.plan = ss.map Scope.plan) {s : Scope}
    (hs : s ∈ ss') : ∃ t ∈ ss, t.plan = s.plan :=
  List.mem_map.mp (hp ▸ List.mem_map_of_mem (f := Scope.plan) hs)

-- Scopes of the same plan are laid in the same way.
theorem Nested.congr {ss' : Scopes} (h : Nested tree ss)
    (hp : ss'.map Scope.plan = ss.map Scope.plan) : Nested tree ss' := by
  intro s hs
  have ⟨t, ht, hplan⟩ := mem_of_plan hp hs
  simp only [Scope.plan, Prod.mk.injEq] at hplan
  have := h t ht
  rw [hplan.1, hplan.2.1] at this
  exact this.of_isPrefix (map_block_of_plan hp ▸ List.prefix_rfl)

theorem Laid.congr {ss' : Scopes} (h : Laid tree ss) (hp : ss'.map Scope.plan = ss.map Scope.plan) :
    Laid tree ss' := by
  refine ⟨map_block_of_plan hp ▸ h.distinct, h.nested.congr hp, fun s hs => ?_, fun s hs name => ?_⟩ <;>
    have ⟨t, ht, hplan⟩ := mem_of_plan hp hs <;>
    simp only [Scope.plan, Prod.mk.injEq] at hplan
  · exact hplan.2.2 ▸ h.names t ht
  · rw [Scope.binds_iff, ← hplan.2.2, ← Scope.binds_iff, h.binds t ht, hplan.1]

/-! ### Recording uses -/

theorem Recorded.congr {isRecorded isRecorded' : Location → Prop} (h : Recorded tree isRecorded ss)
    (hr : ∀ l name, tree.Reads l name → (isRecorded l ↔ isRecorded' l)) :
    Recorded tree isRecorded' ss := by
  intro s hs b hb
  have ⟨hd, hm, hl⟩ := h s hs b hb
  refine ⟨hd, hm, fun l => ?_⟩
  rw [hl, and_congr_left fun h => hr l b.name h.left]

theorem map_plan_refer (ss : Scopes) (id : ScopeId) (name : String) (l : Location) :
    (ss.refer id name l).map Scope.plan = ss.map Scope.plan := by
  rw [refer]
  split
  · refine List.ext_getElem? fun i => ?_
    rw [List.getElem?_map, List.getElem?_map, List.getElem?_modify]
    cases ss[i]? <;> simp
    split <;> simp [Scope.plan_refer]
  · rfl

theorem find?_span {ids : List ScopeId} {places : List Location} (hs : ss.Span ids places)
    (isScope : ScopeId → Bool) (isPlace : Location → Bool)
    (h : ∀ i p, ss.blockOf? i = some p → isScope i = isPlace p) :
    (ids.find? isScope).map ss.blockOf? = (places.find? isPlace).map some := by
  induction ids generalizing places
  case nil => cases places <;> simp [Span] at hs ⊢
  case cons i ids ih =>
    cases places
    case nil => cases hs
    case cons p places =>
      have ⟨hi, hs⟩ := List.cons.inj hs
      rw [List.find?_cons, List.find?_cons, h i p hi]
      cases isPlace p
      case true => simp [hi]
      case false => exact ih hs

-- The scope that a use is recorded in is that of the block which binds the name there.
theorem Laid.binder?_map (h : Laid tree ss) (hs : ss.Span (ss.chain (some id)) (tree.around isBlock l))
    (name : String) :
    (∃ p, (ss.binder? id name).map ss.blockOf? = some (some p) ∧ tree.Binder l name p) ∨
      ss.binder? id name = none ∧ ∀ p, ¬tree.Binder l name p := by
  classical
  have hfind := find?_span hs (fun i => ss[i]?.any (·.binds name)) (fun p => tree.Binds p name) <| by
    intro i p hp
    have ⟨s, hs, hb⟩ := Option.map_eq_some_iff.mp hp
    rw [hs, ← hb, Option.any_some, Bool.eq_iff_iff, h.binds s (List.mem_of_getElem? hs) name]
    simp
  change (ss.binder? id name).map ss.blockOf? = _ at hfind
  simp only [binder_iff_find?, hfind]
  cases hf : (tree.around isBlock l).find? (fun p => tree.Binds p name)
  case some p => exact .inl ⟨p, rfl, rfl⟩
  case none => exact .inr ⟨Option.map_eq_none_iff.mp (hf ▸ hfind), by simp⟩

theorem mem_modify {f : Scope → Scope} {i : ScopeId} {s : Scope} (hs : s ∈ List.modify ss i f) :
    (∃ t, ss[i]? = some t ∧ s = f t) ∨ ∃ j, j ≠ i ∧ ss[j]? = some s := by
  have ⟨j, hj⟩ := List.mem_iff_getElem?.mp hs
  rw [List.getElem?_modify, Option.map_eq_map] at hj
  have ⟨t, ht, hst⟩ := Option.map_eq_some_iff.mp hj
  split at hst <;> rename_i hij
  · exact .inl ⟨t, hij ▸ ht, hst.symm⟩
  · exact .inr ⟨j, Ne.symm hij, hst ▸ ht⟩

theorem Lists.refer {b : Binding} {isUse : Location → Prop} (h : Lists b isUse) (hl : ¬isUse l) :
    Lists (b.refer l) fun m => m = l ∨ isUse m := by
  refine ⟨List.nodup_append.mpr ⟨h.nodup, List.nodup_singleton _, ?_⟩, ?_, fun m => ?_⟩
  · rintro m hm _ hm' rfl
    exact hl ((h.mem l).mp (List.mem_singleton.mp hm' ▸ hm))
  · simp [Binding.refer]
  · simp [Binding.refer, h.mem, or_comm]

-- One more use is recorded.
theorem Laid.refer_recorded (h : Laid tree ss) {isRecorded : Location → Prop}
    (hr : Recorded tree isRecorded ss) (hl : ¬isRecorded l) (hread : tree.Reads l name)
    (hs : ss.Span (ss.chain (some id)) (tree.around isBlock l)) :
    Recorded tree (fun m => m = l ∨ isRecorded m) (ss.refer id name l) := by
  -- Where the name is not bound, or not the name in question, the use counts for nothing.
  have hsame {b : Binding} {p : Location} (hp : ¬(b.name = name ∧ tree.Binder l name p))
      (hb : Lists b fun m => isRecorded m ∧ tree.Reads m b.name ∧ tree.Binder m b.name p) :
      Lists b fun m => (m = l ∨ isRecorded m) ∧ tree.Reads m b.name ∧ tree.Binder m b.name p := by
    refine ⟨hb.nodup, hb.marked, fun m => ?_⟩
    rw [hb.mem, or_and_right]
    refine (or_iff_right ?_).symm
    rintro ⟨rfl, hread', hbinder⟩
    have hname := hread'.unique hread
    exact hp ⟨hname, hname ▸ hbinder⟩
  rw [refer]
  rcases h.binder?_map hs name with ⟨p, hp, hbinder⟩ | ⟨hnone, hno⟩
  case inr =>
    rw [hnone]
    exact fun s hs b hb => hsame (fun h => hno _ h.right) (hr s hs b hb)
  case inl =>
    have ⟨i, hi, hp⟩ := Option.map_eq_some_iff.mp hp
    rw [hi]
    intro s hs b hb
    rcases mem_modify hs with ⟨t, ht, rfl⟩ | ⟨j, hne, hj⟩
    case inl =>
      have htp : t.block = p := by simpa [blockOf?, ht] using hp
      have ⟨c, hc, hb⟩ := List.mem_map.mp hb
      have hrc := hr t (List.mem_of_getElem? ht) c hc
      split at hb <;> rename_i hname <;> rw [beq_iff_eq] at hname <;> subst hb
      · have := hrc.refer (fun h => hl h.left)
        refine ⟨this.nodup, this.marked, fun m => ?_⟩
        rw [this.mem, or_and_right]
        refine or_congr_left ⟨?_, And.left⟩
        rintro rfl
        rw [show (c.refer m).name = name from hname]
        exact ⟨rfl, hread, htp ▸ hbinder⟩
      · exact hsame (fun h => hname h.left) hrc
    case inr =>
      refine hsame (fun ⟨_, hb'⟩ => hne ?_) (hr s (List.mem_of_getElem? hj) b hb)
      -- Two blocks cannot both be the one that binds the name, and no block has two scopes.
      have hsp := hbinder.unique hb'
      have hi : (ss.map (·.block))[i]? = some p := by rw [List.getElem?_map]; exact hp
      have hj : (ss.map (·.block))[j]? = some p := by simp [hj, hsp]
      exact (List.getElem?_inj (List.getElem?_eq_some_iff.mp hj).1 h.distinct).mp (hj.trans hi.symm)

-- All that is read at some places in a block is recorded, if none of it was before.
theorem Laid.foldl_record (h : Laid tree ss) (hp : ss.blockOf? id = some p)
    {isRecorded : Location → Prop} (hr : Recorded tree isRecorded ss) (os : List Occurrence)
    (hd : (os.map (·.location)).Nodup)
    (hos : ∀ o ∈ os, ∀ name, o.reference? = some name →
      tree.IsIn o.location p ∧ tree.Reads o.location name ∧ ¬isRecorded o.location) :
    (os.foldl (record id) ss).map Scope.plan = ss.map Scope.plan ∧
      Recorded tree (fun l => isRecorded l ∨ ∃ o ∈ os, o.location = l ∧ o.reference?.isSome)
        (os.foldl (record id) ss) := by
  induction os generalizing ss isRecorded
  case nil => exact ⟨rfl, hr.congr fun l _ _ => by simp⟩
  case cons o os ih =>
    have ⟨hn, hd⟩ := List.nodup_cons.mp hd
    have htail := fun o ho => hos o (List.mem_cons_of_mem _ ho)
    rw [List.foldl_cons, record]
    cases ho : o.reference?
    case none =>
      have ⟨hplan, hr⟩ := ih h hp hr hd htail
      refine ⟨hplan, hr.congr fun l _ _ => ?_⟩
      simp [ho]
    case some name =>
      have ⟨hin, hread, hnew⟩ := hos o (.head _) name ho
      have haround : tree.around isBlock o.location = _ := around_of_head? hin
      have hspan := haround ▸ h.nested.span hp
      have hr := h.refer_recorded hr hnew hread hspan
      have hplan := map_plan_refer ss id name o.location
      have hp' : (ss.refer id name o.location).blockOf? id = some p := by
        rw [blockOf?, ← List.getElem?_map] at hp ⊢
        rwa [map_block_of_plan hplan]
      have ⟨hplan', hr'⟩ := ih (h.congr hplan) hp' hr hd <| by
        intro o' ho' name' hname'
        have ⟨hin', hread', hnew'⟩ := htail o' ho' name' hname'
        refine ⟨hin', hread', fun h => ?_⟩
        rcases h with h | h
        · exact hn (List.mem_map.mpr ⟨o', ho', h⟩)
        · exact hnew' h
      refine ⟨hplan'.trans hplan, hr'.congr fun l _ _ => ?_⟩
      simp [ho]
      grind

-- No block that has a scope is inside of one that has none.
theorem Laid.not_mem_around (h : Laid tree ss) (hp : p ∉ ss.map (·.block)) (hc : ss.Covers tree l) :
    p ∉ tree.around isBlock l := by
  intro hpl
  have ⟨block, hmem, hin⟩ := hc
  rw [around_of_head? hin, List.mem_cons] at hpl
  rcases hpl with rfl | hpb
  · exact hp hmem
  · have ⟨s, hs, hb⟩ := List.mem_map.mp hmem
    have ⟨i, _, hi⟩ := List.mem_map.mp (h.outer s hs ▸ List.mem_map_of_mem (hb ▸ hpb))
    rw [blockOf?, ← List.getElem?_map] at hi
    exact hp (List.mem_of_getElem? hi)

-- A scope is built for one more block.
theorem Laid.built (h : Laid tree ss) (hplain : tree.HasPlainFunctions)
    (hr : Recorded tree (ss.Covers tree) ss) (hn : tree.at? p = some n) (hb : n.isBlock)
    (hp : p ∉ ss.map (·.block)) {outer : List ScopeId}
    (ho : ss.Span outer (tree.around isBlock p)) :
    let built := ss.build n p (tree.ownerAt? p) outer
    built.map (·.block) = ss.map (·.block) ++ [p] ∧ Laid tree built ∧
      Recorded tree (built.Covers tree) built := by
  let scope := (n.declarations p (tree.ownerAt? p)).foldl Scope.declare { block := p, outer }
  have hscope : Scope.Gains { block := p, outer } _ scope := Scope.foldl_declare_gains _ _
  have hdecl {b : Binding} := mem_declarations hplain hn hb (b := b)
  -- The new scope joins the others, and nothing is recorded in it yet.
  have hblock : (ss ++ [scope]).map (·.block) = ss.map (·.block) ++ [p] := by
    simp [hscope.block]
  have hgrows : ss.map (·.block) <+: (ss ++ [scope]).map (·.block) := hblock ▸ List.prefix_append ..
  have hlaid : Laid tree (ss ++ [scope]) := by
    refine ⟨?_, ?_, ?_, ?_⟩
    case refine_1 =>
      rw [hblock, List.nodup_append]
      refine ⟨h.distinct, List.nodup_singleton _, fun q hq r hr he => hp ?_⟩
      rwa [← List.mem_singleton.mp hr, ← he]
    all_goals
      refine List.forall_mem_append.mpr ⟨?_, List.forall_mem_singleton.mpr ?_⟩
    · exact fun s hs => (h.outer s hs).of_isPrefix hgrows
    · rw [hscope.outer, hscope.block]
      exact ho.of_isPrefix hgrows
    · exact h.names
    · exact hscope.names List.nodup_nil
    · exact h.binds
    · intro name
      rw [hscope.binds, hscope.block, Binds]
      constructor
      · rintro (hempty | ⟨b, hb, rfl⟩)
        · cases hempty
        · obtain ⟨kind, l, name, hb, hd⟩ := hdecl.mp hb
          exact ⟨kind, l, hb ▸ hd⟩
      · rintro ⟨kind, l, hd⟩
        exact .inr ⟨_, hdecl.mpr ⟨kind, l, name, rfl, hd⟩, rfl⟩
  have hrec : Recorded tree (ss.Covers tree) (ss ++ [scope]) := by
    refine List.forall_mem_append.mpr ⟨hr, List.forall_mem_singleton.mpr fun b hb => ?_⟩
    have hb := (hscope.mem b hb).resolve_left (List.not_mem_nil)
    obtain ⟨kind, l, name, hb, _⟩ := hdecl.mp hb
    subst hb
    refine ⟨List.nodup_nil, by simp [Binding.declared], fun m => ?_⟩
    simp only [Binding.declared, List.not_mem_nil, false_iff]
    rintro ⟨hc, _, inner, outer, hpl, _⟩
    exact h.not_mem_around hp hc (by simp [hpl, hscope.block])
  have hid : (ss ++ [scope]).blockOf? ss.length = some p := by
    simp [blockOf?, hscope.block]
  -- What is read in the block is recorded now.
  have hfound {l name} := @exists_reference? tree n p l name hplain hn hb
  obtain ⟨hplan, hrec⟩ := hlaid.foldl_record hid hrec _ (nodup_occurrences n 0 (tree.parentAt? p) p) <| by
    intro o ho name hname
    obtain ⟨hin, hread⟩ := hfound.mp ⟨o, ho, rfl, hname⟩
    exact ⟨hin, hread, fun hc => h.not_mem_around hp hc (List.mem_of_mem_head? hin)⟩
  rw [← ownerAt?_node] at hplan hrec
  have hbuilt := (map_block_of_plan hplan).trans hblock
  refine ⟨hbuilt, hlaid.congr hplan, hrec.congr fun l name hread => ?_⟩
  rw [Covers, Covers, build, hbuilt]
  simp only [List.mem_append, List.mem_singleton, or_and_right, exists_or, exists_eq_left]
  refine or_congr_right ⟨?_, fun hin => ?_⟩
  · rintro ⟨o, ho, rfl, hname⟩
    obtain ⟨name, hname⟩ := Option.isSome_iff_exists.mp hname
    exact (hfound.mp ⟨o, ownerAt?_node tree p ▸ ho, rfl, hname⟩).left
  · obtain ⟨o, ho, hl, hname⟩ := hfound.mpr ⟨hin, hread⟩
    exact ⟨o, ownerAt?_node tree p ▸ ho, hl, by simp [hname]⟩

end Scopes
end ScriptTree
