import ScriptTree.Proofs.Scope.Queries

/-!
Of several declarations of a name in a block the first one is what the scope of the block binds.
Parameters come before all others, and apart from that declarations come as they stand in the script.
-/

namespace ScriptTree

open Node

namespace Node

-- Which of two declarations that a block binds comes first?
def CountsBefore (tree : Node) (kind : BindingKind) (l : Location) (kind' : BindingKind) (l' : Location) :
    Prop :=
  kind = .parameter ∧ kind' ≠ .parameter ∨
    (kind = .parameter ↔ kind' = .parameter) ∧
      (tree.preorder .root).idxOf l < (tree.preorder .root).idxOf l'

-- The declaration of a name that all others of the name in the block come after.
structure DeclaresFirst (tree : Node) (block : Location) (kind : BindingKind) (l : Location)
    (name : String) : Prop where
  declares : tree.Declares block kind l name
  first    : ∀ kind' l', tree.Declares block kind' l' name →
    kind' = kind ∧ l' = l ∨ tree.CountsBefore kind l kind' l'

variable {tree n : Node} {p l l' : Location} {kind kind' : BindingKind} {name : String}

theorem CountsBefore.not_countsBefore (h : tree.CountsBefore kind l kind' l') :
    ¬tree.CountsBefore kind' l' kind l := by
  intro h'
  rcases h with ⟨hk, hk'⟩ | ⟨hk, hl⟩ <;> rcases h' with ⟨hk₁, hk₂⟩ | ⟨hk₁, hl'⟩
  · exact hk' hk₁
  · exact hk' (hk₁.mpr hk)
  · exact hk₂ (hk.mpr hk₁)
  · exact Nat.lt_asymm hl hl'

theorem DeclaresFirst.unique (h : tree.DeclaresFirst p kind l name)
    (h' : tree.DeclaresFirst p kind' l' name) : kind' = kind ∧ l' = l := by
  rcases h.first _ _ h'.declares with heq | hlt
  · exact heq
  · rcases h'.first _ _ h.declares with ⟨rfl, rfl⟩ | hlt'
    · exact ⟨rfl, rfl⟩
    · exact absurd hlt' hlt.not_countsBefore

-- No declaration that a block binds but a parameter stands in a function inside of the block.
theorem Declares.isOutside (hplain : tree.HasPlainFunctions) (h : tree.Declares p kind l name)
    (hk : kind ≠ .parameter) : tree.IsOutside p l := by
  cases h
  case parameter => exact absurd rfl hk
  case function hf hin hx _ =>
    exact isOutside_of_ne_identifier hplain hx (by simp [isBlock, hf]) (by simp [type, hf, Form.type]) hin
  case lexical hf hin hx _ _ =>
    exact isOutside_of_ne_identifier hplain hx (by simp [isBlock, hf]) (by simp [type, hf, Form.type]) hin
  case var hout _ _ _ => exact hout

theorem declaratorKind_ne_parameter (parent : Option Node) : declaratorKind parent ≠ .parameter := by
  rw [declaratorKind]
  split
  case h_1 kind _ => cases kind <;> exact BindingKind.noConfusion
  case h_2 => exact BindingKind.noConfusion

end Node

/-! ### The order in which declarations are found -/

theorem map_filterMap_sublist {α β γ : Type} {f : α → Option β} {g : β → γ} {h : α → γ}
    (hf : ∀ x y, f x = some y → g y = h x) (xs : List α) :
    ((xs.filterMap f).map g).Sublist (xs.map h) := by
  induction xs
  case nil => exact .slnil
  case cons x xs ih =>
    rw [List.filterMap_cons, List.map_cons]
    cases hx : f x
    case none => exact ih.cons _
    case some y =>
      rw [List.map_cons, hf x y hx]
      exact ih.cons_cons _

namespace Owner

theorem parametersIn_sublist (o : Owner) (field : String) :
    ((o.parametersIn field).map (·.location)).Sublist (o.node.preorder o.location) := by
  rw [parametersIn]
  cases hs : o.node.slot? field
  case none => exact List.nil_sublist _
  case some slot =>
    refine (map_filterMap_sublist (h := fun c => o.location.child c.1) ?_ _).trans ?_
    · rintro ⟨step, param⟩ b hb
      obtain ⟨name, _, rfl⟩ := Option.map_eq_some_iff.mp hb
      rfl
    · refine .trans (.map _ ?_) (o.node.children_sublist_preorder o.location)
      rw [Node.slot?, Option.map_eq_some_iff] at hs
      obtain ⟨s, hs, rfl⟩ := hs
      have hd : (o.node.form.slots.map Prod.fst).Nodup :=
        o.node.form.slots_map_fst ▸ Form.nodup_fields _
      rw [Slot.children_within]
      exact List.sublist_flatten_of_mem (List.mem_map_of_mem ((Form.lookup_eq_some hd).mp hs))

theorem parameters_sublist (o : Owner) :
    (o.parameters.map (·.location)).Sublist (o.node.preorder o.location) := by
  rw [parameters]
  split
  · exact o.parametersIn_sublist _
  · exact o.parametersIn_sublist _
  · exact o.parametersIn_sublist _
  · exact List.nil_sublist _

end Owner

namespace Node

variable {tree n : Node} {p : Location}

-- Declarations of the same sort that are found in pre-order.
theorem pairwise_countsBefore {bs : List Binding}
    (h : (bs.map (·.location)).Sublist (tree.preorder .root))
    (hk : ∀ b ∈ bs, ∀ c ∈ bs, (b.kind = .parameter ↔ c.kind = .parameter)) :
    bs.Pairwise fun b c => tree.CountsBefore b.kind b.location c.kind c.location := by
  have horder := List.pairwise_map.mp ((pairwise_idxOf_preorder tree .root).sublist h)
  exact horder.imp_of_mem fun hb hc hlt => .inr ⟨hk _ hb _ hc, hlt⟩

-- The declarations of a block are found one after the other.
theorem pairwise_declarations (hn : tree.at? p = some n) :
    (n.declarations p (tree.ownerAt? p)).Pairwise fun b c =>
      tree.CountsBefore b.kind b.location c.kind c.location := by
  have hparams : ∀ b ∈ ((tree.ownerAt? p).map (·.parameters)).getD [], b.kind = .parameter := by
    intro b hb
    cases ho : tree.ownerAt? p <;> rw [ho] at hb
    case none => cases hb
    case some o =>
      obtain ⟨_, _, _, _, _, _, rfl⟩ := Owner.mem_parameters.mp hb
      rfl
  have hothers {bindsVars : Bool} {os : List Occurrence} :
      ∀ b ∈ os.filterMap (·.binding? bindsVars), b.kind ≠ .parameter := by
    intro b hb
    obtain ⟨o, _, hb⟩ := List.mem_filterMap.mp hb
    rcases Occurrence.binding?_eq_some.mp hb with
      ⟨_, _, _, _, _, _, _, _, rfl⟩ | ⟨_, _, _, _, _, _, rfl⟩
    · exact BindingKind.noConfusion
    · exact declaratorKind_ne_parameter o.parent
  rw [declarations, List.pairwise_append]
  refine ⟨pairwise_countsBefore ?_ fun b hb c hc => iff_of_true (hparams b hb) (hparams c hc),
    pairwise_countsBefore ?_ fun b hb c hc => iff_of_false (hothers b hb) (hothers c hc),
    fun b hb c hc => .inl ⟨hparams b hb, hothers c hc⟩⟩
  · cases ho : tree.ownerAt? p
    case none => exact List.nil_sublist _
    case some o =>
      obtain ⟨q, _, ho⟩ := Option.bind_eq_some_iff.mp ho
      obtain ⟨x, hx, rfl⟩ := Option.map_eq_some_iff.mp ho
      exact (Owner.parameters_sublist ⟨x, q⟩).trans (preorder_sublist_of_at? (l := .root) hx)
  · refine .trans (map_filterMap_sublist (h := (·.location)) (fun o b hb => ?_) _)
      ((occurrences_sublist n 0 _ p).trans (preorder_sublist_of_at? (l := .root) hn))
    rcases Occurrence.binding?_eq_some.mp hb with
      ⟨_, _, _, _, _, _, _, _, rfl⟩ | ⟨_, _, _, _, _, _, rfl⟩ <;> rfl

-- What is found first of a name is its first declaration.
theorem declaresFirst_of_find? (hplain : tree.HasPlainFunctions) (hn : tree.at? p = some n)
    (hb : n.isBlock) {name : String} {b : Binding}
    (h : (n.declarations p (tree.ownerAt? p)).find? (·.name == name) = some b) :
    ∃ kind l, b = .declared kind l name ∧ tree.DeclaresFirst p kind l name := by
  obtain ⟨hname, before, after, hsplit, hbefore⟩ := List.find?_eq_some_iff_append.mp h
  have hmem {c : Binding} := mem_declarations hplain hn hb (b := c)
  have hpairwise := pairwise_declarations hn
  rw [hsplit, List.pairwise_append, List.pairwise_cons] at hpairwise
  obtain ⟨_, ⟨hafter, _⟩, _⟩ := hpairwise
  obtain ⟨kind, l, _, rfl, hdecl⟩ := hmem.mp (List.mem_of_find?_eq_some h)
  obtain rfl := eq_of_beq hname
  refine ⟨kind, l, rfl, hdecl, fun kind' l' hdecl' => ?_⟩
  -- None before it has the name, and all behind it come after it.
  have hc := hmem.mpr ⟨kind', l', _, rfl, hdecl'⟩
  rw [hsplit, List.mem_append, List.mem_cons] at hc
  rcases hc with hc | hc | hc
  · exact absurd (hbefore _ hc) (by simp [Binding.declared])
  · exact .inl ⟨congrArg Binding.kind hc, congrArg Binding.location hc⟩
  · exact .inr (hafter _ hc)

end Node

/-! ### What scopes bind -/

-- A scope that binds just what its block declares, each name as its first declaration has it.
structure Scope.Owns (tree : Node) (s : Scope) : Prop where
  isBlock : (tree.at? s.block).any Node.isBlock
  names   : (s.bindings.map (·.name)).Nodup
  binds   : ∀ name, s.binds name ↔ tree.Binds s.block name
  first   : ∀ kind l name, (∃ b, s.get? name = some b ∧ b.kind = kind ∧ b.location = l) ↔
    tree.DeclaresFirst s.block kind l name
  -- What binds in the block, parameters apart, stands in no function inside of it.
  outside : ∀ kind l name, tree.Declares s.block kind l name → kind ≠ .parameter →
    tree.IsOutside s.block l

theorem hasPlainFunctions_of_parse {options : ParseOptions} {tokens : List Token} {tree : Node}
    (h : parse options tokens = .ok tree) : tree.HasPlainFunctions := by
  intro l f hf hfun step c hc
  have ⟨_, hfills⟩ := (fills_of_parse h).at? hf
  exact hfills.of_isFunction hfun hc

namespace Scopes

variable {tree n : Node} {ss : Scopes} {s : Scope}

-- A name is found in a scope as it is found first in the block.
theorem Kept.get?_bare (h : Kept tree ss) (hs : s ∈ ss) (hn : tree.at? s.block = some n)
    (name : String) : (s.get? name).map Binding.bare =
      (n.declarations s.block (tree.ownerAt? s.block)).find? (·.name == name) := by
  obtain ⟨m, hm, _, hbare⟩ := h.declared s hs
  obtain rfl : m = n := Option.some.inj (hm.symm.trans hn)
  have hmap : (s.get? name).map Binding.bare =
      (s.bindings.map Binding.bare).find? (·.name == name) := by
    rw [List.find?_map]
    rfl
  rw [hmap, hbare]
  exact (Scope.get?_foldl_declare _ _ name).trans (Option.none_or ..)

theorem Kept.owns (h : Kept tree ss) (hplain : tree.HasPlainFunctions) (hs : s ∈ ss) :
    s.Owns tree := by
  obtain ⟨n, hn, hb, hbare⟩ := h.declared s hs
  -- The uses that are recorded make no difference to what a name is found as.
  have hfirst {name : String} {b : Binding} (hb' : s.get? name = some b) :
      tree.DeclaresFirst s.block b.kind b.location name := by
    have hfound := h.get?_bare hs hn name
    rw [hb', Option.map_some] at hfound
    obtain ⟨kind, l, heq, hd⟩ := declaresFirst_of_find? hplain hn hb hfound.symm
    cases heq
    exact hd
  refine ⟨by simp [hn, hb], ?_, h.binds hplain hs, fun kind l name => ⟨?_, fun hd => ?_⟩,
    fun kind l name hd hk => hd.isOutside hplain hk⟩
  · rw [← Binding.map_name_bare, hbare]
    exact (Scope.foldl_declare_gains _ _).names List.nodup_nil
  · rintro ⟨b, hb', rfl, rfl⟩
    exact hfirst hb'
  · obtain ⟨b, hb'⟩ := Option.isSome_iff_exists.mp ((h.binds hplain hs name).mpr ⟨kind, l, hd.declares⟩)
    exact ⟨b, hb', hd.unique (hfirst hb')⟩

end Scopes

-- A walk that asks for the scope of every block builds one for each.
theorem mem_blocks_walk_scopeAsker {tree : Node} (hplain : tree.HasPlainFunctions) {depth : Nat}
    (hd : tree.height ≤ depth) (p : Location) :
    p ∈ (walk depth scopeAsker () tree).scopes.map (·.block) ↔ (tree.at? p).any isBlock := by
  have hlaid : Scopes.Laid tree [] := ⟨List.nodup_nil, nofun, nofun, nofun⟩
  obtain ⟨s, hrun, _, hmem⟩ := WalkM.visitWithin_registers hplain depth (l := .root) rfl hd
    { tree, own := () } ⟨rfl, rfl, nofun, nofun, hlaid, nofun⟩ nofun
  rw [walk, hrun]
  simpa [Location.root] using hmem p

-- Whatever scopes a walk of a script is asked for, each binds what its block declares and nothing else;
-- and every block has one as soon as it is asked for.
theorem walk_ownBindings {options : ParseOptions} {tokens : List Token} {tree : Node}
    (h : parse options tokens = .ok tree) {σ : Type} {v : Visitor σ} (hv : v.OnlyAsks) (depth : Nat)
    (own : σ) :
    let r := walk depth v own tree
    r.tree = tree ∧ (∀ s ∈ r.scopes, s.Owns tree) ∧
      ∀ depth', tree.height ≤ depth' → ∀ p, (tree.at? p).any isBlock →
        ∃ s ∈ (walk depth' scopeAsker () tree).scopes, s.block = p := by
  have hplain := hasPlainFunctions_of_parse h
  obtain ⟨htree, hkept⟩ := walk_kept hv depth own tree
  refine ⟨htree, fun s hs => hkept.owns hplain hs, fun depth' hd p hp => ?_⟩
  exact List.mem_map.mp ((mem_blocks_walk_scopeAsker hplain hd p).mpr hp)

theorem scopeAsker_onlyAsks : scopeAsker.OnlyAsks := by
  rintro (_ | _) l
  · intro n
    dsimp only
    split
    · exact fun _ => trivial
    · trivial
  · trivial

-- The blocks that have a scope, each with what it binds.
def Scopes.outline (ss : Scopes) : List (String × List (BindingKind × String × String)) :=
  ss.map fun s => (s.block.render, s.bindings.map fun b => (b.kind, b.location.render, b.name))

-- A parameter counts before what the body declares, and a name that is declared twice in a block counts
-- from where it stands first.
theorem walk_ownBindings_first :
    ∃ tree r,
      parse {} (Token.ofSource
        "var f; function f(a, a) \x7b let a; \x7b var b; let c; \x7d let b; \x7d" true) = .ok tree ∧
      walk 7 scopeAsker () tree = r ∧ (∀ s ∈ r.scopes, s.Owns tree) ∧
      r.scopes.outline =
        [("<root>", [(.var, "body[0].declarations[0]", "f")]),
         ("body[1].body",
           [(.parameter, "body[1].params[0]", "a"),
            (.var, "body[1].body.body[1].body[0].declarations[0]", "b")]),
         ("body[1].body.body[1]", [(.lexical, "body[1].body.body[1].body[1].declarations[0]", "c")])] := by
  let source := "var f; function f(a, a) \x7b let a; \x7b var b; let c; \x7d let b; \x7d"
  have h : (parse {} (Token.ofSource source true)).toOption.any fun tree =>
      (walk 7 scopeAsker () tree).scopes.outline =
        [("<root>", [(.var, "body[0].declarations[0]", "f")]),
         ("body[1].body",
           [(.parameter, "body[1].params[0]", "a"),
            (.var, "body[1].body.body[1].body[0].declarations[0]", "b")]),
         ("body[1].body.body[1]",
           [(.lexical, "body[1].body.body[1].body[1].declarations[0]", "c")])] := by
    decide +kernel
  cases hp : parse {} (Token.ofSource source true)
  case error => simp [hp, Except.toOption] at h
  case ok tree =>
    simp only [hp, Except.toOption, Option.any_some, decide_eq_true_eq] at h
    exact ⟨tree, _, rfl, rfl, (walk_ownBindings hp scopeAsker_onlyAsks 7 ()).right.left, h⟩

end ScriptTree
