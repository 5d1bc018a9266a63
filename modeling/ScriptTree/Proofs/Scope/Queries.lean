import ScriptTree.Proofs.Scope.Ledger
import ScriptTree.Proofs.Scope.Resolution

/-!
Walks that ask for scopes, wherever and however often, and change nothing else.
-/

namespace ScriptTree

open Node

variable {σ : Type}

-- Leaves the tree as it is.
def Act.OnlyAsks : Act σ → Prop
  | .done => True
  | .getState next => ∀ s, (next s).OnlyAsks
  | .setState _ next => next.OnlyAsks
  | .visit next => ∀ v, (next v).OnlyAsks
  | .node _ next => ∀ n, (next n).OnlyAsks
  | .root next => ∀ n, (next n).OnlyAsks
  | .skip next => next.OnlyAsks
  | .remove _ => False
  | .replace _ _ => False
  | .traverse _ next => next.OnlyAsks
  | .subtree visitor next => (∀ moment l, (visitor moment l).OnlyAsks) ∧ next.OnlyAsks
  | .scope next => ∀ id, (next id).OnlyAsks
  | .scopes next => ∀ ss, (next ss).OnlyAsks

def Visitor.OnlyAsks (visitor : Visitor σ) : Prop :=
  ∀ moment l, (visitor moment l).OnlyAsks

-- The nearest of the visits around a place is at what holds the place.
theorem Above.owner {tree : Node} {l : Location} {vs : List Visit} (h : Above l vs)
    (hl : (tree.at? l).isSome) :
    match vs with
    | [] => tree.ownerAt? l = none
    | v :: _ => ∃ n, tree.at? v.location = some n ∧ tree.ownerAt? l = some ⟨n, v.location⟩ := by
  cases h
  case root => rfl
  case child p step v vs hv _ =>
    subst hv
    have ⟨n, hn⟩ := Option.isSome_iff_exists.mp (Node.at?_isSome_of_child hl)
    exact ⟨n, hn, by simp [ownerAt?, Location.parent?_child, hn]⟩

namespace WalkM

variable {tree n : Node} {l : Location} {s : WalkState σ} {α β : Type}

-- A visit that leaves its node where it is, and has the scope of the block it is at or in if it has any.
structure Visit.Steady (tree : Node) (ss : Scopes) (v : Visit) : Prop where
  stays : v.isRemoved = false
  knows : ∀ known, v.scope = some known → ∀ step, ss.IsAt tree known (v.location.child step)

theorem Visit.Steady.of_isPrefix {ss ss' : Scopes} (h : ss.map (·.block) <+: ss'.map (·.block))
    {v : Visit} (hv : Visit.Steady tree ss v) : Visit.Steady tree ss' v :=
  ⟨hv.stays, fun known hk step => (hv.knows known hk step).of_isPrefix h⟩

-- In the middle of a walk, while the visits at some places are not over.
structure Steady (tree : Node) (places : List Location) (s : WalkState σ) : Prop where
  same   : s.tree = tree
  visits : s.visits.map (·.location) = places
  steady : ∀ v ∈ s.visits, Visit.Steady tree s.scopes v
  kept   : s.scopes.Kept tree

-- The scope that a visit is in is found or built, and nothing else happens.
theorem run_scopeOf_steady {vs : List Visit} (ha : Above l vs) (hr : Resolve s.tree vs)
    (hv : ∀ v ∈ vs, Visit.Steady s.tree s.scopes v) (hk : s.scopes.Kept s.tree) :
    ∃ known ws scopes, (scopeOf vs).run.run s = (.ok (known, ws), { s with scopes }) ∧
      s.scopes.map (·.block) <+: scopes.map (·.block) ∧ scopes.Kept s.tree ∧
      scopes.IsAt s.tree known l ∧ Above l ws ∧ ∀ v ∈ ws, Visit.Steady s.tree scopes v := by
  induction ha
  case root => exact ⟨none, [], s.scopes, rfl, List.prefix_rfl, hk, rfl, .root, by simp⟩
  case child l step v vs hvl ha ih =>
    subst hvl
    obtain ⟨hl, hr⟩ := List.forall_mem_cons.mp hr
    obtain ⟨n, hn⟩ := Option.isSome_iff_exists.mp hl
    obtain ⟨hsteady, hvs⟩ := List.forall_mem_cons.mp hv
    unfold scopeOf
    split <;> rename_i hscope
    case h_1 known =>
      exact ⟨known, v :: vs, s.scopes, rfl, List.prefix_rfl, hk, hsteady.knows known hscope step,
        .child rfl ha, hv⟩
    obtain ⟨known, ws, scopes, hrun, hgrows, hkept, hat, ha', hws⟩ := ih hr hvs
    simp only [run_bind, run_nodeAt hn, hrun]
    by_cases hb : n.isBlock
    case neg =>
      have hat' (step : Step) : scopes.IsAt s.tree known (v.location.child step) := by
        rw [Scopes.IsAt, around_child, hn, Option.any_some, if_neg hb]
        exact hat
      simp only [hb, Bool.not_false, ↓reduceIte]
      refine ⟨known, { v with scope := some known } :: ws, scopes, rfl, hgrows, hkept, hat' step,
        .child rfl ha', List.forall_mem_cons.mpr ⟨⟨hsteady.stays, ?_⟩, hws⟩⟩
      rintro _ ⟨⟩ step
      exact hat' step
    case pos =>
      have hspan := hkept.nested.span_of_isAt hat
      obtain ⟨hblock, hbuilt⟩ := hkept.built hn hb hspan
      let built := scopes.build n v.location (s.tree.ownerAt? v.location) (scopes.chain known)
      have hgrows' : scopes.map (·.block) <+: built.map (·.block) := hblock ▸ List.prefix_append ..
      have hat' (step : Step) : built.IsAt s.tree (some scopes.length) (v.location.child step) := by
        rw [Scopes.IsAt, around_child, hn, Option.any_some, if_pos hb, Option.map_some,
          Scopes.blockOf?, ← List.getElem?_map, hblock]
        simp
      refine ⟨some scopes.length, { v with scope := some (some scopes.length) } :: ws, built, ?_,
        hgrows.trans hgrows', hbuilt, hat' step, .child rfl ha',
        List.forall_mem_cons.mpr ⟨⟨hsteady.stays, ?_⟩, fun w hw => (hws w hw).of_isPrefix hgrows'⟩⟩
      · simp only [hb, Bool.not_true, Bool.false_eq_true, ↓reduceIte]
        have howner := ha'.owner hl
        cases ws <;> simp only at howner
        case nil =>
          simp only [built, howner]
          cases known <;> rfl
        case cons o ws =>
          obtain ⟨x, hx, howner⟩ := howner
          simp only [run_bind, run_nodeAt (s := { s with scopes }) hx, built, howner]
          cases known <;> rfl
      · rintro _ ⟨⟩ step
        exact hat' step

-- A part of a walk that leaves the tree and keeps the ledger, whether or not it comes to its end.
def Keeps (tree : Node) (before after : List Location) (x : WalkM σ α) : Prop :=
  ∀ s, Steady tree before s →
    match x.run.run s with
    | (.ok _, s') => Steady tree after s' ∧ s.scopes.map (·.block) <+: s'.scopes.map (·.block)
    | (.error _, s') => s'.tree = tree ∧ s'.scopes.Kept tree

namespace Keeps

variable {places before after : List Location} {x : WalkM σ α} {f : α → WalkM σ β}

theorem bind (hx : Keeps tree before places x) (hf : ∀ a, Keeps tree places after (f a)) :
    Keeps tree before after (x >>= f) := by
  intro s hs
  have hx := hx s hs
  rw [run_bind]
  rcases h : x.run.run s with ⟨_ | a, s₁⟩ <;> simp only [h] at hx ⊢
  case error => exact hx
  case ok =>
    have hf := hf a s₁ hx.left
    rcases h : (f a).run.run s₁ with ⟨_ | b, s₂⟩ <;> simp only [h] at hf ⊢
    case error => exact hf
    case ok => exact ⟨hf.left, hx.right.trans hf.right⟩

theorem pure (a : α) : Keeps (σ := σ) tree places places (pure a) :=
  fun _ hs => ⟨hs, List.prefix_rfl⟩

theorem get {f : WalkState σ → WalkM σ β} (hf : ∀ s, Keeps tree before after (f s)) :
    Keeps tree before after (get >>= f) :=
  fun s hs => hf s s hs

theorem nodeAt {f : Node → WalkM σ β} (l : Location)
    (hf : ∀ n, tree.at? l = some n → Keeps tree before after (f n)) :
    Keeps tree before after (nodeAt l >>= f) := by
  intro s hs
  rw [run_bind]
  cases hn : tree.at? l
  case none =>
    have hrun : (WalkM.nodeAt l).run.run s = (.error (.fault .lostNode), s) := by
      simp only [WalkM.nodeAt, run_bind, run_get, hs.same, hn]
      rfl
    simp only [hrun]
    exact ⟨hs.same, hs.kept⟩
  case some n =>
    rw [run_nodeAt (hs.same ▸ hn)]
    exact hf n hn s hs

-- The running visit is at the innermost of the places.
theorem visit {f : Visit → WalkM σ β}
    (hf : ∀ v, v.location = l → v.isRemoved = false → Keeps tree l.lineage after (f v)) :
    Keeps tree l.lineage after (visit >>= f) := by
  intro s hs
  have hv := hs.visits
  rw [l.lineage_eq_cons] at hv
  rw [run_bind, run_visit]
  cases hvs : s.visits <;> rw [hvs] at hv
  case nil => cases hv
  case cons v vs =>
    exact hf v (List.cons.inj hv).left (hs.steady v (hvs ▸ .head _)).stays s hs

theorem node (up : Nat) : Keeps (σ := σ) tree places places (node up) := by
  refine get fun s => ?_
  cases s.visits[up]?
  case none => exact pure _
  case some v => exact nodeAt v.location fun n _ => pure _

theorem skip : Keeps (σ := σ) tree places places (modifyVisit ({ · with isSkipped := true })) := by
  intro s hs
  rw [run_modifyVisit]
  refine ⟨⟨hs.same, ?_, fun v hv => ?_, hs.kept⟩, List.prefix_rfl⟩
  · rw [← hs.visits]
    cases s.visits <;> rfl
  · have hsteady := hs.steady
    cases hvs : s.visits <;> simp only [hvs, List.modifyHead_nil, List.modifyHead_cons] at hv hsteady
    case nil => cases hv
    case cons w ws =>
      rcases List.mem_cons.mp hv with rfl | hv
      · have ⟨hstays, hknows⟩ := hsteady w (.head _)
        exact ⟨hstays, hknows⟩
      · exact hsteady v (.tail _ hv)

theorem scope (hl : (tree.at? l).isSome) : Keeps (σ := σ) tree l.lineage l.lineage scope := by
  intro s hs
  have ⟨hsame, hv, hsteady, hkept⟩ := hs
  subst hsame
  rw [l.lineage_eq_cons] at hv
  cases hvs : s.visits <;> rw [hvs] at hv hsteady
  case nil => cases hv
  case cons v vs =>
    have ⟨hvl, hvs'⟩ := List.cons.inj hv
    have ha : Above (l.child ⟨"", none⟩) (v :: vs) := .child hvl (.of_lineage hvs')
    have hr : Resolve s.tree (v :: vs) :=
      List.forall_mem_cons.mpr ⟨by rwa [show v.location = l from hvl], (Above.of_lineage hvs').resolves hl⟩
    have ⟨known, ws, scopes, hrun, hgrows, hkept, _, ha', hws⟩ :=
      run_scopeOf_steady ha hr hsteady hkept
    simp only [WalkM.scope, run_bind, run_get, hvs, hrun, run_modify, run_pure]
    refine ⟨⟨rfl, ?_, hws, hkept⟩, hgrows⟩
    rw [ha'.map_location, Location.lineage_child, List.tail_cons]

theorem perform {traverse : Step → WalkM σ Unit} {subtree : Visitor σ → WalkM σ Unit}
    (hl : (tree.at? l).isSome) (ht : ∀ step, Keeps tree l.lineage l.lineage (traverse step))
    (hs : ∀ visitor : Visitor σ, visitor.OnlyAsks → Keeps tree l.lineage l.lineage (subtree visitor))
    {act : Act σ} (ha : act.OnlyAsks) :
    Keeps tree l.lineage l.lineage (perform traverse subtree act) := by
  induction act
  case done => exact pure _
  case getState next ih => exact get fun s => ih s.own (ha s.own)
  case setState state next ih =>
    exact fun s h => ih ha { s with own := state } ⟨h.same, h.visits, h.steady, h.kept⟩
  case visit next ih => exact visit fun v _ _ => ih v (ha v)
  case node up next ih => exact (node up).bind fun n => ih n (ha n)
  case root next ih => exact get fun s => ih s.tree (ha s.tree)
  case skip next ih => exact skip.bind fun _ => ih ha
  case remove => cases ha
  case replace => cases ha
  case traverse step next ih => exact (ht step).bind fun _ => ih ha
  case subtree visitor next _ ih => exact (hs visitor ha.left).bind fun _ => ih ha.right
  case scope next ih => exact (scope hl).bind fun id => ih id (ha id)
  case scopes next ih => exact get fun s => ih s.scopes (ha s.scopes)

section

variable {descend : Descent σ} {visitor : Visitor σ}
variable (hd : ∀ visitor : Visitor σ, visitor.OnlyAsks → ∀ l, (tree.at? l).isSome →
  Keeps tree l.lineage.tail l.lineage.tail (descend visitor l))
include hd

theorem visitChild (hv : visitor.OnlyAsks) (l : Location) (step : Step) :
    Keeps tree l.lineage l.lineage (visitChild descend visitor l step) := by
  refine nodeAt l fun n hn => ?_
  split
  case isTrue hc =>
    have hat : (tree.at? (l.child step)).isSome := by rwa [at?_child, hn, Option.bind_some]
    simpa using hd visitor hv _ hat
  case isFalse => exact pure _

theorem visitList (hv : visitor.OnlyAsks) (l : Location) (field : String) (remaining index : Nat) :
    Keeps tree l.lineage l.lineage (visitList descend visitor l field remaining index) := by
  induction remaining generalizing index
  case zero => exact pure _
  case succ remaining ih => exact (visitChild hd hv l _).bind fun _ => ih _

theorem visitField (hv : visitor.OnlyAsks) (l : Location) (field : String) :
    Keeps tree l.lineage l.lineage (visitField descend visitor l field) := by
  refine nodeAt l fun n _ => ?_
  split
  · exact visitList hd hv l field _ _
  · exact (visitChild hd hv l _).bind fun _ => pure _

theorem visitChildren (hv : visitor.OnlyAsks) (l : Location) :
    Keeps tree l.lineage l.lineage (visitChildren descend visitor l) := by
  refine nodeAt l fun n _ => ?_
  generalize n.type.fields = fields
  induction fields
  case nil => exact pure _
  case cons field fields ih => exact (visitField hd hv l field).bind fun _ => ih

theorem visitStep (hv : visitor.OnlyAsks) (l : Location) (step : Step) :
    Keeps tree l.lineage l.lineage (visitStep descend visitor step) := by
  refine visit fun v hvl _ => nodeAt _ fun n _ => ?_
  split
  · split
    · exact hvl ▸ (visitChild hd hv _ _).bind fun _ => pure _
    · exact hvl ▸ visitField hd hv _ _
  · exact pure _

-- The visit that is begun anew comes back as it was.
theorem visitAgain (hv : visitor.OnlyAsks) (hl : (tree.at? l).isSome) :
    Keeps tree l.lineage l.lineage (visitAgain descend visitor) := by
  intro s hs
  obtain ⟨hsame, hplaces, hsteady, hkept⟩ := hs
  rw [l.lineage_eq_cons] at hplaces
  cases hvs : s.visits <;> rw [hvs] at hplaces hsteady
  case nil => cases hplaces
  case cons v vs =>
    obtain ⟨hvl, hplaces⟩ := List.cons.inj hplaces
    obtain ⟨hsteady, hvs'⟩ := List.forall_mem_cons.mp hsteady
    have hd := hd visitor hv l hl { s with visits := vs } ⟨hsame, hplaces, hvs', hkept⟩
    have hdiscard : discard (descend visitor l) = descend visitor l >>= fun _ => Pure.pure () := rfl
    simp only [WalkM.visitAgain, run_bind, run_visit, hvs, List.head?_cons, Option.getD_some,
      run_modify, List.tail_cons, show v.location = l from hvl, hdiscard]
    rcases h : (descend visitor l).run.run { s with visits := vs } with ⟨_ | a, s'⟩ <;>
      simp only [h] at hd ⊢
    case error => exact hd
    case ok =>
      obtain ⟨⟨hsame, hplaces, hvs, hkept⟩, hgrows⟩ := hd
      refine ⟨⟨hsame, ?_, List.forall_mem_cons.mpr ⟨hsteady.of_isPrefix hgrows, hvs⟩, hkept⟩, hgrows⟩
      rw [l.lineage_eq_cons, List.map_cons]
      exact List.cons_eq_cons.mpr ⟨hvl, hplaces⟩

theorem ask (hv : visitor.OnlyAsks) (hl : (tree.at? l).isSome) (moment : Moment) :
    Keeps tree l.lineage l.lineage (ask descend visitor moment) :=
  visit fun _ _ _ => perform hl (visitStep hd hv l) (fun _ hv => visitAgain hd hv hl) (hv moment _)

omit hd

-- Nothing is taken out at the end of a visit.
theorem commit : Keeps (σ := σ) tree l.lineage l.lineage commit := by
  refine visit fun v _ hr => ?_
  simp only [hr]
  exact pure _

theorem push (l : Location) : Keeps (σ := σ) tree l.lineage.tail l.lineage
    (modify fun s => { s with visits := { location := l } :: s.visits }) := by
  intro s ⟨hsame, hplaces, hsteady, hkept⟩
  refine ⟨⟨hsame, ?_, List.forall_mem_cons.mpr ⟨⟨rfl, nofun⟩, hsteady⟩, hkept⟩, List.prefix_rfl⟩
  rw [List.map_cons, hplaces, ← l.lineage_eq_cons]

theorem pop (l : Location) : Keeps (σ := σ) tree l.lineage l.lineage.tail
    (modify fun s => { s with visits := s.visits.tail }) := by
  intro s ⟨hsame, hplaces, hsteady, hkept⟩
  exact ⟨⟨hsame, by rw [List.map_tail, hplaces], fun v hv => hsteady v (List.mem_of_mem_tail hv),
    hkept⟩, List.prefix_rfl⟩

include hd

theorem visitNode (hv : visitor.OnlyAsks) (hl : (tree.at? l).isSome) :
    Keeps tree l.lineage.tail l.lineage.tail (visitNode descend visitor l) := by
  have last : Keeps (σ := σ) tree l.lineage l.lineage.tail (do
      let isRemoved ← WalkM.commit
      modify fun s => { s with visits := s.visits.tail }
      return isRemoved) :=
    commit.bind fun _ => (pop l).bind fun _ => pure _
  refine (push l).bind fun _ => (ask hd hv hl .enter).bind fun _ => visit fun v _ _ => ?_
  by_cases hs : v.isSkipped <;> simp only [hs, Bool.not_true, Bool.not_false, ↓reduceIte,
    Bool.false_eq_true]
  · exact last
  · by_cases hr : v.isRemoved <;> simp only [hr, Bool.not_true, Bool.not_false, ↓reduceIte,
      Bool.false_eq_true]
    · exact (ask hd hv hl .exit).bind fun _ => last
    · exact (visitChildren hd hv l).bind fun _ => (ask hd hv hl .exit).bind fun _ => last

omit hd

theorem visitWithin (depth : Nat) (hv : visitor.OnlyAsks) (hl : (tree.at? l).isSome) :
    Keeps tree l.lineage.tail l.lineage.tail (visitWithin depth visitor l) := by
  induction depth generalizing visitor l
  case zero => exact fun s hs => ⟨hs.same, hs.kept⟩
  case succ depth ih => exact visitNode (fun _ hv _ hl => ih hv hl) hv hl

end

end Keeps
end WalkM

-- A walk that only asks leaves the tree, and its scopes are a ledger of it at every moment.
theorem walk_kept {visitor : Visitor σ} (hv : visitor.OnlyAsks) (depth : Nat) (own : σ) (tree : Node) :
    let r := walk depth visitor own tree
    r.tree = tree ∧ r.scopes.Kept tree := by
  have hkeeps : WalkM.Keeps tree [] [] (WalkM.visitWithin depth visitor .root) :=
    .visitWithin (l := .root) depth hv rfl
  have h := hkeeps { tree, own } ⟨rfl, rfl, nofun, .nil tree⟩
  rw [walk]
  rcases hr : (WalkM.visitWithin depth visitor .root).run.run { tree, own } with ⟨_ | _, s⟩ <;>
    simp only [hr] at h ⊢
  case error => exact h
  case ok => exact ⟨h.left.same, h.left.kept⟩

-- What scopes report of a script is the same whenever the same scopes were built for it, in whatever
-- order they were asked for and from whatever walks.
theorem walk_references {τ : Type} {options : ParseOptions} {tokens : List Token} {tree : Node}
    (h : parse options tokens = .ok tree) {v : Visitor σ} {w : Visitor τ} (hv : v.OnlyAsks)
    (hw : w.OnlyAsks) (depth depth' : Nat) (own : σ) (own' : τ) :
    let r := walk depth v own tree
    let r' := walk depth' w own' tree
    r.tree = tree ∧ r.scopes.Tallied tree ∧ ∀ f, r.scopes.Renumbers f r'.scopes →
      ∀ i s, r.scopes[i]? = some s → ∃ s', r'.scopes[f i]? = some s' ∧ s.Alike s' := by
  have hplain : tree.HasPlainFunctions := fun l f hf hfun step c hc =>
    have ⟨_, hfills⟩ := (fills_of_parse h).at? hf
    hfills.of_isFunction hfun hc
  have ⟨htree, hkept⟩ := walk_kept hv depth own tree
  have ⟨_, hkept'⟩ := walk_kept hw depth' own' tree
  exact ⟨htree, hkept.tallied hplain, fun f hf i s hs => hkept.alike hkept' hf hs⟩

-- Asks for the scopes of some parts of a script, one after the other.
def scopeAskerIn (steps : List Step) : Visitor Unit
  | .enter, []     => steps.foldr (fun step next => .traverse step next) (.skip .done)
  | .enter, _ :: _ => .scope fun _ => .done
  | .exit, _       => .done

theorem scopeAskerIn_onlyAsks (steps : List Step) : (scopeAskerIn steps).OnlyAsks := by
  have hroot : Act.OnlyAsks (σ := Unit) (steps.foldr (fun step next => .traverse step next) (.skip .done)) := by
    induction steps
    case nil => trivial
    case cons step steps ih => exact ih
  intro moment l
  cases moment <;> cases l
  case enter.nil => exact hroot
  case enter.cons => exact fun _ => trivial
  all_goals trivial

namespace Scopes

-- The names that are bound, with the places of their uses.
def report (ss : Scopes) : List (List (String × List String)) :=
  ss.map (·.bindings.map fun b => (b.name, b.references.map Location.render))

instance (f : ScopeId → ScopeId) (ss ss' : Scopes) : Decidable (ss.Renumbers f ss') :=
  decidable_of_iff
    (ss'.length = ss.length ∧ (∀ i < ss.length, ∀ j < ss.length, f i = f j → i = j) ∧
      ∀ i < ss.length, ss'[f i]?.map (fun s => (s.block, s.outer)) =
        ss[i]?.map fun s => (s.block, s.outer.map f))
    ⟨fun ⟨h₁, h₂, h₃⟩ => ⟨h₁, h₂, h₃⟩, fun ⟨h₁, h₂, h₃⟩ => ⟨h₁, h₂, h₃⟩⟩

end Scopes

-- Two blocks whose scopes are asked for in both orders.
theorem walk_references_swapped :
    ∃ tree, parse {} (Token.ofSource "let x; \x7b x; \x7d \x7b x; \x7d" true) = .ok tree ∧
      let r := walk 9 (scopeAskerIn [⟨"body", some 1⟩, ⟨"body", some 2⟩]) () tree
      let r' := walk 9 (scopeAskerIn [⟨"body", some 2⟩, ⟨"body", some 1⟩]) () tree
      r.scopes.Renumbers (fun i => if i = 0 then 0 else 3 - i) r'.scopes ∧
      r.scopes.report =
        [[("x", ["body[1].body[0].expression", "body[2].body[0].expression"])], [], []] ∧
      r'.scopes.report =
        [[("x", ["body[2].body[0].expression", "body[1].body[0].expression"])], [], []] ∧
      ∀ s ∈ r.scopes[0]?, ∃ s', r'.scopes[0]? = some s' ∧ s.Alike s' := by
  let source := "let x; \x7b x; \x7d \x7b x; \x7d"
  let steps : List Step := [⟨"body", some 1⟩, ⟨"body", some 2⟩]
  have h : (parse {} (Token.ofSource source true)).toOption.any fun tree =>
      let r := walk 9 (scopeAskerIn steps) () tree
      let r' := walk 9 (scopeAskerIn steps.reverse) () tree
      r.scopes.Renumbers (fun i => if i = 0 then 0 else 3 - i) r'.scopes ∧
      r.scopes.report =
        [[("x", ["body[1].body[0].expression", "body[2].body[0].expression"])], [], []] ∧
      r'.scopes.report =
        [[("x", ["body[2].body[0].expression", "body[1].body[0].expression"])], [], []] := by
    decide +kernel
  cases hp : parse {} (Token.ofSource source true)
  case error => simp [hp, Except.toOption] at h
  case ok tree =>
    simp only [hp, Except.toOption, Option.any_some, decide_eq_true_eq] at h
    obtain ⟨_, _, halike⟩ := walk_references hp (scopeAskerIn_onlyAsks steps)
      (scopeAskerIn_onlyAsks steps.reverse) 9 9 () ()
    exact ⟨tree, rfl, h.left, h.right.left, h.right.right, fun s hs => halike _ h.left 0 s hs⟩

-- Which scopes were built does make a difference: a use inside of a block is not known before the scope
-- of that block is.
theorem walk_references_unasked :
    ∃ tree, parse {} (Token.ofSource "let x; \x7b x; \x7d" true) = .ok tree ∧
      (walk 9 (scopeAskerIn [⟨"body", some 0⟩]) () tree).scopes.report = [[("x", [])]] ∧
      (walk 9 (scopeAskerIn [⟨"body", some 0⟩, ⟨"body", some 1⟩]) () tree).scopes.report =
        [[("x", ["body[1].body[0].expression"])], []] := by
  let source := "let x; \x7b x; \x7d"
  have h : (parse {} (Token.ofSource source true)).toOption.any fun tree =>
      (walk 9 (scopeAskerIn [⟨"body", some 0⟩]) () tree).scopes.report = [[("x", [])]] ∧
      (walk 9 (scopeAskerIn [⟨"body", some 0⟩, ⟨"body", some 1⟩]) () tree).scopes.report =
        [[("x", ["body[1].body[0].expression"])], []] := by decide +kernel
  cases hp : parse {} (Token.ofSource source true)
  case error => simp [hp, Except.toOption] at h
  case ok tree =>
    simp only [hp, Except.toOption, Option.any_some, decide_eq_true_eq] at h
    exact ⟨tree, rfl, h⟩

end ScriptTree
