import ScriptTree.Proofs.Parse.Parts
import ScriptTree.Proofs.Parse.Soundness
import ScriptTree.Proofs.Scope.Build
import ScriptTree.Proofs.Walk.Steps

/-!
A walk that asks for the scope of each block finds every use of a name where it is bound.
-/

namespace ScriptTree

open Node

-- Asks for the scope of each block before what is in it is visited.
def scopeAsker : Visitor Unit
  | .enter, _ => .node 0 fun n => if n.any (·.isBlock) then .scope fun _ => .done else .done
  | .exit, _  => .done

namespace Scopes

-- The bindings that list a place among their uses, each as often as it does.
def usesAt (ss : Scopes) (l : Location) : List (Location × String) :=
  ss.flatMap fun s => s.bindings.flatMap fun b =>
    .replicate (b.references.count l) (s.block, b.name)

end Scopes

/-! ### The walk -/

namespace Location

theorem lineage_eq_cons (l : Location) : l.lineage = l :: l.lineage.tail := by
  induction l using child_induction <;> simp

end Location

theorem Above.of_lineage {l : Location} {vs : List Visit} (h : vs.map (·.location) = l.lineage.tail) :
    Above l vs := by
  induction l using Location.child_induction generalizing vs
  case hr =>
    cases vs <;> cases h
    exact .root
  case hc l step ih =>
    rw [Location.lineage_child, List.tail_cons, l.lineage_eq_cons] at h
    cases vs
    case nil => cases h
    case cons v vs =>
      have ⟨hv, hvs⟩ := List.cons.inj h
      exact .child hv (ih hvs)

theorem Above.map_location {l : Location} {vs : List Visit} (h : Above l vs) :
    vs.map (·.location) = l.lineage.tail := by
  induction h
  case root => rfl
  case child l step v vs hv _ ih =>
    rw [List.map_cons, hv, ih, Location.lineage_child, List.tail_cons, ← l.lineage_eq_cons]

namespace WalkM

variable {tree n : Node} {l : Location} {s : WalkState Unit} {ss : Scopes} {α β : Type}

-- The scope that is known for a visit is that of the block it is at or in. It is known for blocks.
def Knows (tree : Node) (ss : Scopes) (v : Visit) : Prop :=
  match v.scope with
  | some known => ∀ step, ss.IsAt tree known (v.location.child step)
  | none       => ¬(tree.at? v.location).any isBlock

-- In the middle of a walk, while the visits at some places are not over.
structure Ready (tree : Node) (places : List Location) (s : WalkState Unit) : Prop where
  same     : s.tree = tree
  visits   : s.visits.map (·.location) = places
  plain    : ∀ v ∈ s.visits, v.isSkipped = false ∧ v.isRemoved = false
  knows    : ∀ v ∈ s.visits, Knows tree s.scopes v
  laid     : s.scopes.Laid tree
  recorded : s.scopes.Recorded tree (s.scopes.Covers tree)

-- Where the scopes around are known, asking for a scope builds none.
theorem run_scopeOf_of_knows {vs : List Visit} (ha : Above l vs) (hl : (s.tree.at? l).isSome)
    (hp : ∀ v ∈ vs, v.isSkipped = false ∧ v.isRemoved = false)
    (hk : ∀ v ∈ vs, Knows s.tree s.scopes v) :
    ∃ known ws, (scopeOf vs).run.run s = (.ok (known, ws), s) ∧
      s.scopes.IsAt s.tree known l ∧ Above l ws ∧
      (∀ v ∈ ws, v.isSkipped = false ∧ v.isRemoved = false) ∧
      ∀ v ∈ ws, Knows s.tree s.scopes v := by
  induction ha
  case root => exact ⟨none, [], rfl, rfl, .root, by simp, by simp⟩
  case child l step v vs hv ha ih =>
    have hl := Node.at?_isSome_of_child hl
    have ⟨n, hn⟩ := Option.isSome_iff_exists.mp hl
    have hkv := hk v (.head _)
    rw [Knows] at hkv
    unfold scopeOf
    split <;> rename_i hs <;> rw [hs] at hkv
    · exact ⟨_, v :: vs, rfl, hv ▸ hkv step, .child hv ha, hp, hk⟩
    · have ⟨known, ws, hrun, hat, ha', hp', hk'⟩ :=
        ih hl (fun w hw => hp w (.tail _ hw)) (fun w hw => hk w (.tail _ hw))
      have hnb : ¬n.isBlock := by simpa [hv, hn] using hkv
      have hat' step : s.scopes.IsAt s.tree known (l.child step) := by
        rw [Scopes.IsAt, around_child, hn, Option.any_some, if_neg hnb]
        exact hat
      simp only [run_bind, hv, run_nodeAt hn, hrun, hnb, Bool.not_false, ↓reduceIte, run_pure]
      exact ⟨_, _, rfl, hat' step, .child rfl ha',
        List.forall_mem_cons.mpr ⟨hp v (.head _), hp'⟩, List.forall_mem_cons.mpr ⟨hat', hk'⟩⟩

theorem Knows.of_isPrefix {ss' : Scopes} (h : ss.map (·.block) <+: ss'.map (·.block)) {v : Visit}
    (hk : Knows tree ss v) : Knows tree ss' v := by
  rw [Knows] at hk ⊢
  split <;> rename_i hs <;> rw [hs] at hk
  · exact fun step => (hk step).of_isPrefix h
  · exact hk

-- The scope of a block is built when it is asked for first.
theorem run_scopeOf_of_isBlock {vs ws : List Visit} {known : Option ScopeId}
    (hn : s.tree.at? l = some n) (hb : n.isBlock)
    (hrun : (scopeOf vs).run.run s = (.ok (known, ws), s)) (ha : Above l ws) :
    (scopeOf ({ location := l } :: vs)).run.run s =
      (.ok (some s.scopes.length, { location := l, scope := some (some s.scopes.length) } :: ws),
        { s with scopes := s.scopes.build n l (s.tree.ownerAt? l) (s.scopes.chain known) }) := by
  unfold scopeOf
  simp only [run_bind, run_nodeAt hn, hrun, hb, Bool.not_true, Bool.false_eq_true, ↓reduceIte]
  cases ha
  case root =>
    cases known <;> rfl
  case child p step o ws ho ha =>
    have hp := Node.at?_isSome_of_child (by rw [hn]; rfl)
    obtain ⟨x, hx⟩ := Option.isSome_iff_exists.mp hp
    have howner : s.tree.ownerAt? (p.child step) = some ⟨x, p⟩ := by
      simp [ownerAt?, Location.parent?_child, hx]
    simp only [run_bind, ho, run_nodeAt hx, howner]
    cases known <;> rfl

-- Begins a visit.
def opened (l : Location) (s : WalkState Unit) : WalkState Unit :=
  { s with visits := { location := l } :: s.visits }

theorem run_scope_of_isBlock (hplain : tree.HasPlainFunctions) (h : Ready tree l.lineage.tail s)
    (hn : tree.at? l = some n) (hb : n.isBlock) (hnew : l ∉ s.scopes.map (·.block)) :
    ∃ s', scope.run.run (opened l s) = (.ok (some s.scopes.length), s') ∧ Ready tree l.lineage s' ∧
      s'.scopes.map (·.block) = s.scopes.map (·.block) ++ [l] := by
  have ⟨hs, hv, hp, hk, hl, hr⟩ := h
  subst hs
  have ⟨known, ws, hrun, hat, ha, hp, hk⟩ :=
    run_scopeOf_of_knows (s := opened l s) (.of_lineage hv) (by simp [opened, hn]) hp hk
  have ⟨hblock, hlaid, hrec⟩ := hl.built hplain hr hn hb hnew (hl.nested.span_of_isAt hat)
  refine ⟨{ s with
    visits := { location := l, scope := some (some s.scopes.length) } :: ws
    scopes := s.scopes.build n l (s.tree.ownerAt? l) (s.scopes.chain known) }, ?_, ?_, hblock⟩
  · simp only [scope, run_bind, run_get]
    have hvisits : (opened l s).visits = { location := l } :: s.visits := rfl
    rw [hvisits, run_scopeOf_of_isBlock (s := opened l s) hn hb hrun ha]
    rfl
  · refine ⟨rfl, ?_, List.forall_mem_cons.mpr ⟨⟨rfl, rfl⟩, hp⟩,
      List.forall_mem_cons.mpr ⟨fun step => ?_, fun w hw => (hk w hw).of_isPrefix ?_⟩, hlaid, hrec⟩
    · rw [List.map_cons, ha.map_location, ← l.lineage_eq_cons]
    · rw [Scopes.IsAt, around_child, hn, Option.any_some, if_pos hb, Option.map_some,
        Scopes.blockOf?, ← List.getElem?_map, hblock]
      simp
    · exact hblock ▸ List.prefix_append ..

-- On entering a block its scope is built, and elsewhere nothing is.
theorem run_enter (descend : Descent Unit) (hplain : tree.HasPlainFunctions)
    (h : Ready tree l.lineage.tail s) (hn : tree.at? l = some n)
    (hnew : n.isBlock → l ∉ s.scopes.map (·.block)) :
    ∃ s', (ask descend scopeAsker .enter).run.run (opened l s) = (.ok (), s') ∧
      Ready tree l.lineage s' ∧
      s'.scopes.map (·.block) = s.scopes.map (·.block) ++ if n.isBlock then [l] else [] := by
  have hnode : (node 0).run.run (opened l s) = (.ok (some n), opened l s) := by
    rw [← h.same] at hn
    simp only [node, run_bind, run_get]
    show ((do return some (← nodeAt l)) : WalkM Unit (Option Node)).run.run (opened l s) = _
    rw [run_bind, run_nodeAt (s := opened l s) hn]
    rfl
  simp only [ask, run_bind, run_visit, scopeAsker, perform, hnode, Option.any_some]
  by_cases hb : n.isBlock
  case pos =>
    obtain ⟨s', hrun, hready, hblock⟩ := run_scope_of_isBlock hplain h hn hb (hnew hb)
    simp only [if_pos hb, perform, run_bind, hrun, run_pure]
    exact ⟨s', rfl, hready, hblock⟩
  case neg =>
    rw [if_neg hb, if_neg hb]
    refine ⟨opened l s, rfl, ?_, by simp [opened]⟩
    obtain ⟨hs, hv, hp, hk, hl, hr⟩ := h
    refine ⟨hs, ?_, List.forall_mem_cons.mpr ⟨⟨rfl, rfl⟩, hp⟩,
      List.forall_mem_cons.mpr ⟨?_, hk⟩, hl, hr⟩
    · rw [l.lineage_eq_cons]
      simp [opened, hv]
    · simpa [Knows, hn] using hb

-- A part of a walk that comes to its end and builds the scopes of the blocks at some places, if none
-- of them has one yet.
def Registers (tree : Node) (places : List Location) (x : WalkM Unit α) (a : α)
    (isPlace : Location → Prop) : Prop :=
  ∀ s, Ready tree places s →
    (∀ p, isPlace p → (tree.at? p).any isBlock → p ∉ s.scopes.map (·.block)) →
    ∃ s', x.run.run s = (.ok a, s') ∧ Ready tree places s' ∧
      ∀ p, p ∈ s'.scopes.map (·.block) ↔
        p ∈ s.scopes.map (·.block) ∨ isPlace p ∧ (tree.at? p).any isBlock

namespace Registers

variable {places : List Location} {x : WalkM Unit α} {f : α → WalkM Unit β} {a : α} {b : β}
variable {P Q : Location → Prop}

theorem congr (h : Registers tree places x a P)
    (hpq : ∀ p, (tree.at? p).any isBlock → (P p ↔ Q p)) : Registers tree places x a Q := by
  intro s hs hnew
  have ⟨s', hrun, hs', hmem⟩ := h s hs fun p hp hb => hnew p ((hpq p hb).mp hp) hb
  exact ⟨s', hrun, hs', fun p => by rw [hmem, and_congr_left fun hb => hpq p hb]⟩

theorem bind (hx : Registers tree places x a P) (hf : Registers tree places (f a) b Q)
    (hd : ∀ p, P p → ¬Q p) : Registers tree places (x >>= f) b fun p => P p ∨ Q p := by
  intro s hs hnew
  have ⟨s₁, hrun₁, hs₁, hmem₁⟩ := hx s hs fun p hp => hnew p (.inl hp)
  have ⟨s₂, hrun₂, hs₂, hmem₂⟩ := hf s₁ hs₁ fun p hp hb hin => by
    rcases (hmem₁ p).mp hin with hin | ⟨hp', _⟩
    · exact hnew p (.inr hp) hb hin
    · exact hd p hp' hp
  refine ⟨s₂, ?_, hs₂, fun p => ?_⟩
  · simp only [run_bind, hrun₁, hrun₂]
  · rw [hmem₂, hmem₁, or_and_right, or_assoc]

theorem pure (a : α) : Registers tree places (pure a) a fun _ => False :=
  fun s hs _ => ⟨s, rfl, hs, by simp⟩

-- Looking up a node builds nothing.
theorem nodeAt_bind (hn : tree.at? l = some n) {f : Node → WalkM Unit β}
    (hf : Registers tree places (f n) b P) : Registers tree places (nodeAt l >>= f) b P := by
  intro s hs hnew
  have ⟨s', hrun, h⟩ := hf s hs hnew
  exact ⟨s', by simp only [run_bind, run_nodeAt (hs.same ▸ hn), hrun], h⟩

theorem bind_pure {x : WalkM Unit α} (hx : Registers tree places x a P) (b : β) :
    Registers tree places (x >>= fun _ => Pure.pure b) b P :=
  (hx.bind (f := fun _ => Pure.pure b) (.pure b) fun _ _ => id).congr fun p _ => by rw [or_false]

end Registers

variable {descend : Descent Unit} {step : Step}

-- The walk of what lies below a place.
theorem visitChild_registers (hn : tree.at? l = some n)
    (hd : ∀ c, n.child? step = some c →
      Registers tree l.lineage (descend scopeAsker (l.child step)) false (l.child step <+: ·)) :
    Registers tree l.lineage (visitChild descend scopeAsker l step) false (l.child step <+: ·) := by
  refine .nodeAt_bind hn ?_
  cases hc : n.child? step
  case some c => simpa using hd c hc
  case none =>
    simp only [Option.isSome_none, Bool.false_eq_true, ↓reduceIte]
    refine (Registers.pure false).congr fun p hb => ?_
    rw [false_iff]
    rintro ⟨m, rfl⟩
    simp [at?_append, at?_child, hn, hc] at hb

theorem visitList_registers {field : String}
    (hd : ∀ i, Registers tree l.lineage (visitChild descend scopeAsker l ⟨field, some i⟩) false
      (l.child ⟨field, some i⟩ <+: ·)) (remaining index : Nat) :
    Registers tree l.lineage (visitList descend scopeAsker l field remaining index) ()
      fun p => ∃ i, index ≤ i ∧ i < index + remaining ∧ l.child ⟨field, some i⟩ <+: p := by
  induction remaining generalizing index
  case zero => exact (Registers.pure ()).congr fun p _ => by grind
  case succ remaining ih =>
    refine ((hd index).bind (ih (index + 1)) ?_).congr fun p _ => ?_
    · rintro p hp ⟨i, hi, _, hp'⟩
      have := Location.step_eq_of_isPrefix hp hp'
      simp only [Step.mk.injEq, Option.some.injEq, true_and] at this
      omega
    · constructor
      · rintro (hp | ⟨i, hi, hi', hp⟩)
        · exact ⟨index, by omega, by omega, hp⟩
        · exact ⟨i, by omega, by omega, hp⟩
      · rintro ⟨i, hi, hi', hp⟩
        rcases Nat.eq_or_lt_of_le hi with rfl | hi
        · exact .inl hp
        · exact .inr ⟨i, hi, by omega, hp⟩

-- All that is below a place in a field.
theorem visitField_registers (hn : tree.at? l = some n)
    (hd : ∀ step c, n.child? step = some c →
      Registers tree l.lineage (descend scopeAsker (l.child step)) false (l.child step <+: ·))
    (field : String) :
    Registers tree l.lineage (visitField descend scopeAsker l field) ()
      fun p => ∃ i, l.child ⟨field, i⟩ <+: p := by
  have hchild step := visitChild_registers hn (hd step)
  have hslot {p : Location} {i : Option Nat} (hp : l.child ⟨field, i⟩ <+: p)
      (hb : (tree.at? p).any isBlock) : ∃ s c, n.slot? field = some s ∧ s.child? i = some c := by
    obtain ⟨m, hm⟩ := hp
    rw [← hm, at?_append, at?_child, hn, Option.bind_some, child?] at hb
    cases hs : n.slot? field <;> simp [hs] at hb
    case some s =>
      cases hc : s.child? i <;> simp [hc] at hb
      case some c => exact ⟨s, c, rfl, hc⟩
  refine .nodeAt_bind hn ?_
  cases hlen : (n.slot? field).bind (·.length?)
  case some length =>
    refine (visitList_registers (fun i => hchild _) length 0).congr fun p hb => ?_
    constructor
    · rintro ⟨i, _, _, hp⟩
      exact ⟨some i, hp⟩
    · rintro ⟨i, hp⟩
      obtain ⟨s, c, hs, hc⟩ := hslot hp hb
      rw [hs, Option.bind_some] at hlen
      obtain ⟨j, hj, hi⟩ := by simpa only [hlen] using Slot.index_of_child? hc
      exact ⟨j, Nat.zero_le _, by omega, hi ▸ hp⟩
  case none =>
    refine ((hchild ⟨field, none⟩).bind_pure ()).congr fun p hb => ?_
    constructor
    · exact fun hp => ⟨none, hp⟩
    · rintro ⟨i, hp⟩
      obtain ⟨s, c, hs, hc⟩ := hslot hp hb
      rw [hs, Option.bind_some] at hlen
      have hi : i = none := by simpa only [hlen] using Slot.index_of_child? hc
      exact hi ▸ hp

theorem visitChildren_registers (hn : tree.at? l = some n)
    (hd : ∀ step c, n.child? step = some c →
      Registers tree l.lineage (descend scopeAsker (l.child step)) false (l.child step <+: ·)) :
    Registers tree l.lineage (visitChildren descend scopeAsker l) ()
      fun p => l <+: p ∧ p ≠ l := by
  have hfields (fields : List String) (hnd : fields.Nodup) :
      Registers tree l.lineage (fields.forM (visitField descend scopeAsker l)) ()
        fun p => ∃ field ∈ fields, ∃ i, l.child ⟨field, i⟩ <+: p := by
    induction fields
    case nil => exact (Registers.pure ()).congr fun p _ => by simp
    case cons field fields ih =>
      have ⟨hf, hnd⟩ := List.nodup_cons.mp hnd
      refine ((visitField_registers hn hd field).bind (ih hnd) ?_).congr fun p _ => by simp
      rintro p ⟨i, hp⟩ ⟨field', hf', j, hp'⟩
      have := Location.step_eq_of_isPrefix hp hp'
      simp only [Step.mk.injEq] at this
      exact hf (this.1 ▸ hf')
  refine .nodeAt_bind hn ((hfields _ (Form.nodup_fields _)).congr fun p hb => ?_)
  constructor
  · rintro ⟨field, _, i, hp⟩
    have hlp := ( List.prefix_append l [⟨field, i⟩]).trans hp
    refine ⟨hlp, fun he => ?_⟩
    have := (he ▸ hp).length_le
    simp only [Location.child, List.length_append, List.length_singleton] at this
    omega
  · rintro ⟨⟨m, rfl⟩, hne⟩
    cases m
    case nil => simp at hne
    case cons step m =>
      rw [at?_append, hn, Option.bind_some, at?] at hb
      cases hc : n.child? step <;> simp [hc] at hb
      exact ⟨step.field, field_mem_of_child? hc, step.index, m, by simp [Location.child]⟩

-- One visit, if the visits below it go well.
theorem visitNode_registers (hplain : tree.HasPlainFunctions) (hn : tree.at? l = some n)
    (hd : ∀ step c, n.child? step = some c →
      Registers tree l.lineage (descend scopeAsker (l.child step)) false (l.child step <+: ·)) :
    Registers tree l.lineage.tail (visitNode descend scopeAsker l) false (l <+: ·) := by
  intro s hs hnew
  have hnewl (hb : n.isBlock) := hnew l List.prefix_rfl (by simp [hn, hb])
  have ⟨s₁, hrun₁, hs₁, hblock₁⟩ := run_enter descend hplain hs hn hnewl
  have hmem₁ p : p ∈ s₁.scopes.map (·.block) ↔
      p ∈ s.scopes.map (·.block) ∨ p = l ∧ (tree.at? p).any isBlock := by
    rw [hblock₁, List.mem_append]
    refine or_congr_right ?_
    split <;> grind
  have ⟨s₂, hrun₂, hs₂, hmem₂⟩ := visitChildren_registers hn hd s₁ hs₁ <| by
    rintro p ⟨hp, hne⟩ hb hin
    rcases (hmem₁ p).mp hin with hin | ⟨rfl, _⟩
    · exact hnew p hp hb hin
    · exact hne rfl
  have hcons (t : WalkState Unit) (ht : Ready tree l.lineage t) :
      ∃ v vs, t.visits = v :: vs ∧ v.isSkipped = false ∧ v.isRemoved = false ∧
        Ready tree l.lineage.tail { t with visits := vs } := by
    have ⟨h₁, h₂, h₃, h₄, h₅, h₆⟩ := ht
    rw [l.lineage_eq_cons] at h₂
    rcases hv : t.visits with _ | ⟨v, vs⟩ <;> rw [hv] at h₂ h₃ h₄
    · cases h₂
    · have ⟨hp, h₃⟩ := List.forall_mem_cons.mp h₃
      exact ⟨v, vs, rfl, hp.1, hp.2, h₁, (List.cons.inj h₂).2, h₃,
        (List.forall_mem_cons.mp h₄).2, h₅, h₆⟩
  have ⟨v₁, vs₁, hv₁, hskip₁, hremove₁, _⟩ := hcons s₁ hs₁
  have ⟨v₂, vs₂, hv₂, _, hremove₂, hready⟩ := hcons s₂ hs₂
  refine ⟨{ s₂ with visits := vs₂ }, ?_, hready, fun p => ?_⟩
  · have hopen : (modify fun s => { s with visits := { location := l } :: s.visits } :
        WalkM Unit Unit).run.run s = (.ok (), opened l s) := rfl
    have hexit : (ask descend scopeAsker .exit).run.run s₂ = (.ok (), s₂) := rfl
    simp only [visitNode, run_bind, hopen, hrun₁, run_visit, hv₁, List.head?_cons, Option.getD_some,
      hskip₁, hremove₁, Bool.not_false, ↓reduceIte, hrun₂, hexit]
    simp only [commit, run_bind, run_visit, hv₂, List.head?_cons, Option.getD_some, hremove₂,
      run_pure, run_modify, List.tail_cons]
  · rw [hmem₂, hmem₁, or_assoc, ← or_and_right]
    refine or_congr_right (and_congr_left fun _ => ⟨?_, fun hp => ?_⟩)
    · rintro (rfl | ⟨hp, _⟩)
      · exact List.prefix_rfl
      · exact hp
    · exact (em (p = l)).imp_right fun hne => ⟨hp, hne⟩

-- A walk that is allowed to go as deep as the tree comes to its end.
theorem visitWithin_registers (hplain : tree.HasPlainFunctions) (depth : Nat) (hn : tree.at? l = some n)
    (hd : n.height ≤ depth) :
    Registers tree l.lineage.tail (visitWithin depth scopeAsker l) false (l <+: ·) := by
  induction depth generalizing l n
  case zero => exact absurd n.height_pos (Nat.not_lt.mpr hd)
  case succ depth ih =>
    refine visitNode_registers hplain hn fun step c hc => ?_
    have hc' := height_lt_of_child? hc
    have hat : tree.at? (l.child step) = some c := by rw [at?_child, hn, Option.bind_some, hc]
    simpa using ih hat (by omega)

end WalkM

/-! ### Resolution -/

namespace Scopes

variable {tree : Node} {ss : Scopes} {l : Location}

theorem mem_usesAt {block : Location} {name : String} : (block, name) ∈ ss.usesAt l ↔
    ∃ s ∈ ss, ∃ b ∈ s.bindings, l ∈ b.references ∧ s.block = block ∧ b.name = name := by
  simp [usesAt, List.mem_flatMap, List.mem_replicate, List.count_eq_zero, eq_comm]

theorem nodup_usesAt (h : ss.Laid tree) {isRecorded : Location → Prop}
    (hr : ss.Recorded tree isRecorded) : (ss.usesAt l).Nodup := by
  have hmem {s : Scope} {x : Location × String}
      (hx : x ∈ s.bindings.flatMap fun b => .replicate (b.references.count l) (s.block, b.name)) :
      x.1 = s.block := by
    have ⟨b, _, hx⟩ := List.mem_flatMap.mp hx
    rw [List.eq_of_mem_replicate hx]
  rw [usesAt, List.nodup_flatMap]
  refine ⟨fun s hs => ?_, ?_⟩
  · rw [List.nodup_flatMap]
    refine ⟨fun b hb => ?_, ?_⟩
    · rw [List.nodup_replicate]
      exact List.nodup_iff_count_le_one.mp (hr s hs b hb).nodup l
    · refine (List.pairwise_map.mp (h.names s hs)).imp fun hne x hx hy => hne ?_
      have := (List.eq_of_mem_replicate hx).symm.trans (List.eq_of_mem_replicate hy)
      exact (Prod.mk.inj this).2
  · exact (List.pairwise_map.mp h.distinct).imp fun hne x hx hy =>
      hne ((hmem hx).symm.trans (hmem hy))

end Scopes

-- The scopes that tell for all uses of names where the names are bound.
structure Scopes.Resolve (tree : Node) (ss : Scopes) : Prop where
  -- Every block has one scope.
  distinct : (ss.map (·.block)).Nodup
  blocks   : ∀ l, l ∈ ss.map (·.block) ↔ (tree.at? l).any isBlock
  -- A scope binds what the block declares.
  names    : ∀ s ∈ ss, (s.bindings.map (·.name)).Nodup
  binds    : ∀ s ∈ ss, ∀ name, s.binds name ↔ tree.Binds s.block name
  -- A use is listed once, with the binding that the name has there; and nowhere if it has none.
  bound    : ∀ l name block, tree.Reads l name → tree.Binder l name block →
    ss.usesAt l = [(block, name)]
  unbound  : ∀ l name, tree.Reads l name → (∀ block, ¬tree.Binder l name block) → ss.usesAt l = []
  -- What is no use of a name is not listed.
  others   : ∀ l, (∀ name, ¬tree.Reads l name) → ss.usesAt l = []
  marked   : ∀ s ∈ ss, ∀ b ∈ s.bindings, b.isReferenced ↔ b.references ≠ []

namespace Scopes

variable {tree : Node} {ss : Scopes}

-- Once all blocks have a scope every use is recorded.
theorem Laid.resolve (h : ss.Laid tree) (hr : ss.Recorded tree (ss.Covers tree))
    (hall : ∀ l, l ∈ ss.map (·.block) ↔ (tree.at? l).any isBlock) : ss.Resolve tree := by
  have hcovers {l block : Location} {name : String} (hb : tree.Binder l name block) :
      ss.Covers tree l := by
    have ⟨inner, outer, hpl, _⟩ := hb
    have ⟨p, hp⟩ := Option.isSome_iff_exists.mp
      (List.isSome_head?.mpr (hpl ▸ List.append_ne_nil_of_right_ne_nil inner (List.cons_ne_nil _ _)))
    have ⟨_, _, n, hn, hpb⟩ := mem_around.mp (List.mem_of_mem_head? hp)
    exact ⟨p, (hall p).mpr (by simp [hn, hpb]), hp⟩
  have hmem {l block : Location} {name : String} :
      (block, name) ∈ ss.usesAt l ↔ tree.Reads l name ∧ tree.Binder l name block := by
    rw [mem_usesAt]
    constructor
    · rintro ⟨s, hs, b, hb, hl, rfl, rfl⟩
      exact (((hr s hs b hb).mem l).mp hl).right
    · rintro ⟨hread, hbinder⟩
      have ⟨inner, outer, hpl, hbinds, _⟩ := hbinder
      have ⟨_, _, n, hn, hb⟩ := mem_around.mp (hpl ▸ List.mem_append_right inner (.head outer))
      have ⟨s, hs, hsb⟩ := List.mem_map.mp ((hall block).mpr (by simp [hn, hb]))
      subst hsb
      have ⟨b, hb, hname⟩ := List.mem_map.mp (Scope.binds_iff.mp ((h.binds s hs name).mpr hbinds))
      subst hname
      exact ⟨s, hs, b, hb, ((hr s hs b hb).mem l).mpr ⟨hcovers hbinder, hread, hbinder⟩, rfl, rfl⟩
  have hempty {l : Location} (h : ∀ block name, ¬(tree.Reads l name ∧ tree.Binder l name block)) :
      ss.usesAt l = [] :=
    List.eq_nil_iff_forall_not_mem.mpr fun ⟨block, name⟩ hx => h block name (hmem.mp hx)
  refine ⟨h.distinct, hall, h.names, h.binds, fun l name block hread hbinder => ?_,
    fun l name hread hno => hempty fun block name' ⟨hread', hbinder⟩ => ?_,
    fun l hno => hempty fun block name h => hno name h.left,
    fun s hs b hb => (hr s hs b hb).marked⟩
  · refine List.perm_singleton.mp ((List.perm_ext_iff_of_nodup (nodup_usesAt h hr)
      (List.nodup_singleton _)).mpr fun ⟨block', name'⟩ => ?_)
    rw [hmem, List.mem_singleton, Prod.mk.injEq]
    constructor
    · rintro ⟨hread', hbinder'⟩
      have hname := hread'.unique hread
      exact ⟨(hname ▸ hbinder').unique hbinder, hname⟩
    · rintro ⟨rfl, rfl⟩
      exact ⟨hread, hbinder⟩
  · exact hno block (hread'.unique hread ▸ hbinder)

end Scopes

-- After one walk that asks for the scope of every block of a script, all names that are read are
-- resolved.
theorem walk_scopeAsker_resolve {options : ParseOptions} {tokens : List Token} {tree : Node}
    (h : parse options tokens = .ok tree) {depth : Nat} (hd : tree.height ≤ depth) :
    let r := walk depth scopeAsker () tree
    r.stop = none ∧ r.tree = tree ∧ r.scopes.Resolve tree := by
  have hplain : tree.HasPlainFunctions := fun l f hf hfun step c hc =>
    have ⟨_, hfills⟩ := (fills_of_parse h).at? hf
    hfills.of_isFunction hfun hc
  have hlaid : Scopes.Laid tree [] := ⟨List.nodup_nil, by simp, by simp, by simp⟩
  have ⟨s, hrun, hs, hmem⟩ := WalkM.visitWithin_registers hplain depth (l := .root) rfl hd
    { tree, own := () } ⟨rfl, rfl, by simp, by simp, hlaid, by simp [Scopes.Recorded]⟩ (by simp)
  have hw : walk depth scopeAsker () tree = ⟨none, s.tree, s.own, s.scopes⟩ := by
    rw [walk, hrun]
  rw [hw]
  exact ⟨rfl, hs.same, hs.laid.resolve hs.recorded (by simpa [Location.root] using hmem)⟩

-- A name is found outside of the function in which it is read, and a parameter in its body.
theorem walk_scopeAsker_resolve_outward :
    ∃ tree, parse {} (Token.ofSource "var a; function f(b) \x7b \x7b a; b \x7d \x7d" true) = .ok tree ∧
      tree.height ≤ 7 ∧ (walk 7 scopeAsker () tree).scopes.Resolve tree ∧
      (walk 7 scopeAsker () tree).scopes.map (·.bindings.map fun b => (b.name, b.references.length)) =
        [[("a", 1), ("f", 0)], [("b", 1)], []] := by
  let source := "var a; function f(b) \x7b \x7b a; b \x7d \x7d"
  have h : (parse {} (Token.ofSource source true)).toOption.any fun tree => tree.height ≤ 7 ∧
      (walk 7 scopeAsker () tree).scopes.map
          (·.bindings.map fun b => (b.name, b.references.length)) =
        [[("a", 1), ("f", 0)], [("b", 1)], []] := by decide +kernel
  cases hp : parse {} (Token.ofSource source true)
  case error => simp [hp, Except.toOption] at h
  case ok tree =>
    simp only [hp, Except.toOption, Option.any_some, decide_eq_true_eq] at h
    exact ⟨tree, rfl, h.left, (walk_scopeAsker_resolve hp h.left).right.right, h.right⟩

end ScriptTree
