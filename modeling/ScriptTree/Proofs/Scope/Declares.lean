import ScriptTree.Proofs.Node.Preorder
import ScriptTree.Proofs.Scope.Around

/-!
Which names a block binds and where names are read, said of places in the whole tree; and that this is
what is found when a scope is built.
-/

namespace ScriptTree

namespace Node

-- Is the block the one that a place is in?
def IsIn (tree : Node) (l block : Location) : Prop :=
  (tree.around isBlock l).head? = some block

-- Is the place in no function inside of the outer one?
def IsOutside (tree : Node) (outer l : Location) : Prop :=
  ∀ f ∈ tree.around isFunction l, ¬outer <+: f

-- Does the identifier at a place read the variable of its name?
structure Reads (tree : Node) (l : Location) (name : String) : Prop where
  isName : (tree.at? l).bind identifierName? = some name
  isUse  : ∀ step ∈ l.getLast?, ∀ parent ∈ tree.parentAt? l, parent.readsVariableIn step.field

-- The declarations that bind in a block.
inductive Declares (tree : Node) (block : Location) : BindingKind → Location → String → Prop
  | parameter {l step owner param name} :
    block.parent? = some l → tree.at? l = some owner →
    (owner.isFunction ∧ step.field = "params" ∨
      owner.type = .catchClause ∧ step.field = "param") →
    owner.child? step = some param → param.identifierName? = some name →
    Declares tree block .parameter (l.child step) name
  | function {l n id params body traits name} :
    tree.IsIn l block → tree.at? l = some n →
    n.form = .functionDeclaration (some id) params body traits → id.identifierName? = some name →
    Declares tree block .function l name
  | lexical {l n id init name} :
    tree.IsIn l block → tree.at? l = some n → n.form = .variableDeclarator id init →
    id.identifierName? = some name → declaratorKind (tree.parentAt? l) ≠ .var →
    Declares tree block (declaratorKind (tree.parentAt? l)) l name
  -- What is declared by `var` binds in the nearest block that is no part of a function or the body of
  -- one.
  | var {l n id init name} :
    (∀ owner ∈ tree.parentAt? block, owner.isFunction) → block <+: l → tree.IsOutside block l →
    tree.at? l = some n → n.form = .variableDeclarator id init →
    id.identifierName? = some name → declaratorKind (tree.parentAt? l) = .var →
    Declares tree block .var l name

def Binds (tree : Node) (block : Location) (name : String) : Prop :=
  ∃ kind l, tree.Declares block kind l name

-- The block that binds a name where it stands: the innermost one of those that bind it.
def Binder (tree : Node) (l : Location) (name : String) (block : Location) : Prop :=
  ∃ inner outer, tree.around isBlock l = inner ++ block :: outer ∧ tree.Binds block name ∧
    ∀ b ∈ inner, ¬tree.Binds b name

-- In scripts as they are read a function has names and a body that is a block, and nothing else.
def HasPlainFunctions (tree : Node) : Prop :=
  ∀ l f, tree.at? l = some f → f.isFunction → ∀ step c, f.child? step = some c →
    c.isBlock ∨ (step.field = "id" ∨ step.field = "params") ∧ c.type = .identifier

variable {tree n c : Node} {p q l : Location} {step : Step} {name : String}

theorem Reads.unique {name' : String} (h₁ : tree.Reads l name) (h₂ : tree.Reads l name') :
    name = name' :=
  Option.some.inj (h₁.isName.symm.trans h₂.isName)

open Classical in
theorem binder_iff_find? : tree.Binder l name p ↔
    (tree.around isBlock l).find? (fun q => tree.Binds q name) = some p := by
  simp [Binder, List.find?_eq_some_iff_append]
  grind

theorem Binder.unique (h₁ : tree.Binder l name p) (h₂ : tree.Binder l name q) : p = q :=
  Option.some.inj ((binder_iff_find?.mp h₁).symm.trans (binder_iff_find?.mp h₂))

/-! ### Occurrences -/

theorem occurrences_eq (n : Node) (depth : Nat) (parent : Option Node) (l : Location) :
    n.occurrences depth parent l = ⟨n, l, parent, depth⟩ ::
      if n.isFunction then []
      else n.form.children.flatMap fun (step, c) =>
        c.occurrences (if n.isBlock then depth + 1 else depth) (some n) (l.child step) := by
  rw [occurrences, fold_eq]
  simp only [Form.children_map, List.flatMap_map]
  rfl

theorem length_around_cons (h : n.child? step = some c) (depth : Nat) (m : Location) :
    depth + (n.around isBlock (step :: m)).length =
      (if n.isBlock then depth + 1 else depth) + (c.around isBlock m).length := by
  rw [around_cons h]
  split
  · simp
    omega
  · simp

-- The nodes that are found are those that stand in no function inside of the one to start from.
theorem mem_occurrences (hn : tree.at? p = some n) (depth : Nat) (o : Occurrence) :
    o ∈ n.occurrences depth (tree.parentAt? p) p ↔
      ∃ m, o.location = p ++ m ∧ n.at? m = some o.node ∧ n.around isFunction m = [] ∧
        o.parent = tree.parentAt? o.location ∧
        o.depth = depth + (n.around isBlock m).length := by
  induction n using induct generalizing p depth
  case h n ih =>
    rw [occurrences_eq]
    constructor
    · intro ho
      rcases List.mem_cons.mp ho with rfl | ho
      · exact ⟨[], by simp [at?]⟩
      · split at ho <;> rename_i hf
        · cases ho
        obtain ⟨⟨step, c⟩, hc, ho⟩ := List.mem_flatMap.mp ho
        have hc := mem_children.mp hc
        have hat : tree.at? (p.child step) = some c := by simp [at?_child, hn, hc]
        rw [← hn, ← parentAt?_child tree p step] at ho
        obtain ⟨m, hl, hm, hfm, hp, hd⟩ := (ih step c hc hat _).mp ho
        refine ⟨step :: m, by simp [hl, Location.child], by simp [at?, hc, hm], ?_, hp, ?_⟩
        · simp [around_cons hc, hfm, hf]
        · rw [hd, length_around_cons hc]
    · rintro ⟨m, hl, hm, hf, hp, hd⟩
      cases m
      case nil =>
        cases o
        simp_all [at?]
      case cons step m =>
        obtain ⟨c, hc, hm⟩ := Option.bind_eq_some_iff.mp hm
        have hat : tree.at? (p.child step) = some c := by simp [at?_child, hn, hc]
        rw [around_cons hc, List.append_eq_nil_iff, List.map_eq_nil_iff] at hf
        have hnf : ¬n.isFunction := by
          intro h
          simp [h] at hf
        rw [if_neg hnf]
        refine List.mem_cons_of_mem _ (List.mem_flatMap.mpr ⟨(step, c), mem_children.mpr hc, ?_⟩)
        rw [← hn, ← parentAt?_child tree p step]
        refine (ih step c hc hat _).mpr ⟨m, by simp [hl, Location.child], hm, hf.left, hp, ?_⟩
        rw [hd, length_around_cons hc]

-- The nodes are found in pre-order, so each of them once.
theorem occurrences_sublist (n : Node) (depth : Nat) (parent : Option Node) (l : Location) :
    ((n.occurrences depth parent l).map (·.location)).Sublist (n.preorder l) := by
  induction n using induct generalizing depth parent l
  case h n ih =>
    rw [occurrences_eq, preorder_eq, List.map_cons, List.cons_sublist_cons]
    split
    · exact List.nil_sublist _
    · rw [List.map_flatMap]
      exact List.Sublist.flatMap_right _ fun ⟨step, c⟩ hc => ih step c (mem_children.mp hc) _ _ _

theorem nodup_occurrences (n : Node) (depth : Nat) (parent : Option Node) (l : Location) :
    ((n.occurrences depth parent l).map (·.location)).Nodup :=
  (occurrences_sublist n depth parent l).nodup (nodup_preorder n l)

/-! ### A block and what is found in it -/

-- What is in the block itself is in one block of it.
theorem isIn_iff (hn : tree.at? p = some n) (hb : n.isBlock) {m : Location}
    (hm : (n.at? m).isSome) : tree.IsIn (p ++ m) p ↔ (n.around isBlock m).length = 1 := by
  rw [IsIn, around_append hn]
  cases m
  case nil =>
    simp only [around_nil, List.map_nil, List.nil_append, List.length_nil, Nat.zero_ne_one, iff_false]
    intro h
    exact (mem_around.mp (List.mem_of_mem_head? h)).right.left rfl
  case cons step m =>
    have ⟨x, hx⟩ := Option.isSome_iff_exists.mp hm
    have ⟨c, hc, _⟩ := Option.bind_eq_some_iff.mp hx
    rw [around_cons hc]
    cases c.around isBlock m <;> simp [hb]

theorem isOutside_iff (hn : tree.at? p = some n) {m : Location} :
    tree.IsOutside p (p ++ m) ↔ n.around isFunction m = [] := by
  rw [IsOutside, around_append hn]
  constructor
  · intro h
    by_contra hne
    have ⟨f, hf⟩ := List.exists_mem_of_ne_nil _ hne
    exact h (p ++ f) (List.mem_append_left _ (List.mem_map_of_mem hf)) ( List.prefix_append p f)
  · intro h f hf hp
    rw [h, List.map_nil, List.nil_append] at hf
    have ⟨hfp, hne, _⟩ := mem_around.mp hf
    exact hne (hfp.eq_of_length_le hp.length_le)

-- What is found is at a place of the tree, and in no function inside of the node to start from.
theorem occurs_at (hn : tree.at? p = some n) {o : Occurrence}
    (ho : o ∈ n.occurrences 0 (tree.parentAt? p) p) :
    p <+: o.location ∧ tree.at? o.location = some o.node ∧ tree.IsOutside p o.location ∧
      o.parent = tree.parentAt? o.location := by
  have ⟨m, hl, hm, hf, hp, _⟩ := (mem_occurrences hn 0 o).mp ho
  refine ⟨⟨m, hl.symm⟩, ?_, hl ▸ (isOutside_iff hn).mpr hf, hp⟩
  rw [hl, at?_append, hn, Option.bind_some, hm]

theorem exists_occurrence (hn : tree.at? p = some n) (hp : p <+: l) {x : Node}
    (hx : tree.at? l = some x) (hout : tree.IsOutside p l) :
    ∃ o ∈ n.occurrences 0 (tree.parentAt? p) p,
      o.location = l ∧ o.node = x ∧ o.parent = tree.parentAt? l := by
  have ⟨m, hl⟩ := hp
  subst hl
  refine ⟨⟨x, p ++ m, tree.parentAt? (p ++ m), 0 + (n.around isBlock m).length⟩, ?_, rfl, rfl, rfl⟩
  refine (mem_occurrences hn 0 _).mpr ⟨m, rfl, ?_, (isOutside_iff hn).mp hout, rfl, rfl⟩
  rwa [at?_append, hn, Option.bind_some] at hx

theorem isOwn_iff (hn : tree.at? p = some n) (hb : n.isBlock) {o : Occurrence}
    (ho : o ∈ n.occurrences 0 (tree.parentAt? p) p) : o.isOwn ↔ tree.IsIn o.location p := by
  have ⟨m, hl, hm, _, _, hd⟩ := (mem_occurrences hn 0 o).mp ho
  rw [Occurrence.isOwn, beq_iff_eq, hd, hl, isIn_iff hn hb (by simp [hm]), Nat.zero_add]

-- What is in a block and in a function inside of the block is a name that belongs to the function.
theorem isOutside_of_isIn (h : tree.HasPlainFunctions) (hn : tree.at? l = some n) (hb : ¬n.isBlock)
    (hl : tree.IsIn l p) : tree.IsOutside p l ∨
      n.type = .identifier ∧ ∃ q step f, l = q.child step ∧ tree.at? q = some f ∧ f.isFunction ∧
        (step.field = "id" ∨ step.field = "params") := by
  refine or_iff_not_imp_left.mpr fun hout => ?_
  simp only [IsOutside, not_forall, not_not] at hout
  have ⟨q, hq, hpq⟩ := hout
  have ⟨⟨m, hm⟩, hne, f, hqf, hf⟩ := mem_around.mp hq
  cases m
  case nil => exact absurd (by simpa using hm) hne
  case cons step m =>
    subst hm
    have hx := hn
    rw [at?_append, hqf, Option.bind_some] at hx
    have ⟨c, hc, hx⟩ := Option.bind_eq_some_iff.mp hx
    rcases h q f hqf hf step c hc with hcb | ⟨hstep, hname⟩
    · -- The body of the function would be a block nearer than the one around it.
      have hat : tree.at? (q.child step) = some c := by simp [at?_child, hqf, hc]
      have hmem : q.child step ∈ tree.around isBlock (q ++ step :: m) := by
        refine mem_around.mpr ⟨⟨m, by simp [Location.child]⟩, ?_, c, hat, hcb⟩
        intro he
        have hm : m = [] := by simpa [Location.child] using he
        subst hm
        cases hx
        exact hb hcb
      have := ((isPrefix_of_head?_around hl hmem).trans hpq).length_le
      simp only [Location.child, List.length_append, List.length_singleton] at this
      omega
    · cases m
      case nil =>
        cases hx
        exact ⟨hname, q, step, f, rfl, hqf, hf, hstep⟩
      case cons step' m =>
        have ⟨d, hd, _⟩ := Option.bind_eq_some_iff.mp hx
        have := field_mem_of_child? hd
        simp [hname, NodeType.fields] at this

-- So what is neither a block nor a name is in the block alone.
theorem isOutside_of_ne_identifier (h : tree.HasPlainFunctions) (hn : tree.at? l = some n)
    (hb : ¬n.isBlock) (hi : n.type ≠ .identifier) (hl : tree.IsIn l p) : tree.IsOutside p l :=
  (isOutside_of_isIn h hn hb hl).resolve_right fun h => hi h.left

theorem isPrefix_of_isIn (h : tree.IsIn l p) : p <+: l :=
  (mem_around.mp (List.mem_of_mem_head? h)).left

end Node

/-! ### Uses and declarations -/

namespace Occurrence

theorem reference?_eq_some {o : Occurrence} {name : String} :
    o.reference? = some name ↔ o.node.identifierName? = some name ∧ o.isOwn ∧
      ∀ step ∈ o.location.getLast?, ∀ parent ∈ o.parent, parent.readsVariableIn step.field := by
  rw [reference?, Node.identifierName?]
  cases o.node.form <;> cases o.parent <;> cases o.location.getLast? <;> simp [and_comm]

theorem binding?_eq_some {o : Occurrence} {bindsVars : Bool} {b : Binding} :
    o.binding? bindsVars = some b ↔
      (∃ id params body traits, o.node.form = .functionDeclaration (some id) params body traits ∧
        o.isOwn ∧ ∃ name, id.identifierName? = some name ∧ .declared .function o.location name = b) ∨
      (∃ id init, o.node.form = .variableDeclarator id init ∧
        (if Node.declaratorKind o.parent = .var then bindsVars else o.isOwn) ∧
        ∃ name, id.identifierName? = some name ∧
          .declared (Node.declaratorKind o.parent) o.location name = b) := by
  rw [binding?]
  cases o.node.form <;> simp
  case functionDeclaration id params body traits => cases id <;> simp

end Occurrence

namespace Owner

theorem mem_parametersIn {o : Owner} {field : String} {b : Binding} :
    b ∈ o.parametersIn field ↔ ∃ step param name, step.field = field ∧
      o.node.child? step = some param ∧ param.identifierName? = some name ∧
      b = .declared .parameter (o.location.child step) name := by
  rw [parametersIn]
  cases hs : o.node.slot? field
  case none =>
    simp only [List.not_mem_nil, false_iff, not_exists, not_and]
    rintro step param _ rfl hc
    simp [Node.child?, hs] at hc
  case some s =>
    simp only [List.mem_filterMap, Prod.exists, Slot.mem_children, Option.map_eq_some_iff]
    constructor
    · rintro ⟨step, param, ⟨rfl, hc⟩, name, hname, rfl⟩
      exact ⟨step, param, name, rfl, by simp [Node.child?, hs, hc], hname, rfl⟩
    · rintro ⟨step, param, name, rfl, hc, hname, rfl⟩
      exact ⟨step, param, ⟨rfl, by simpa [Node.child?, hs] using hc⟩, name, hname, rfl⟩

theorem mem_parameters {o : Owner} {b : Binding} :
    b ∈ o.parameters ↔ ∃ step param name,
      (o.node.isFunction ∧ step.field = "params" ∨
        o.node.type = .catchClause ∧ step.field = "param") ∧
      o.node.child? step = some param ∧ param.identifierName? = some name ∧
      b = .declared .parameter (o.location.child step) name := by
  have hf : o.node.isFunction ↔
      o.node.type = .functionDeclaration ∨ o.node.type = .functionExpression := by
    rw [Node.isFunction, Node.type]
    cases o.node.form <;> simp [Form.type]
  rw [parameters, hf]
  split <;> simp_all [mem_parametersIn]

end Owner

namespace Node

variable {tree n : Node} {p l : Location} {name : String}

-- What holds the node at a place.
def ownerAt? (tree : Node) (p : Location) : Option Owner :=
  p.parent?.bind fun q => (tree.at? q).map (⟨·, q⟩)

theorem ownerAt?_node (tree : Node) (p : Location) :
    (tree.ownerAt? p).map (·.node) = tree.parentAt? p := by
  rw [ownerAt?, parentAt?]
  cases p.parent? <;> simp [Function.comp_def]

theorem not_readsVariableIn {f : Node} (hf : f.isFunction) {field : String}
    (hfield : field = "id" ∨ field = "params") : ¬f.readsVariableIn field := by
  rw [isFunction] at hf
  cases h : f.form <;> simp [h] at hf <;> rcases hfield with rfl | rfl <;> simp [readsVariableIn, h]

-- The names that are read in a block.
theorem exists_reference? (h : tree.HasPlainFunctions) (hn : tree.at? p = some n) (hb : n.isBlock) :
    (∃ o ∈ n.occurrences 0 (tree.parentAt? p) p, o.location = l ∧ o.reference? = some name) ↔
      tree.IsIn l p ∧ tree.Reads l name := by
  simp only [Occurrence.reference?_eq_some]
  constructor
  · rintro ⟨o, ho, rfl, hname, hown, huse⟩
    obtain ⟨_, hx, _, hp⟩ := occurs_at hn ho
    exact ⟨(isOwn_iff hn hb ho).mp hown, by simp [hx, hname], hp ▸ huse⟩
  · rintro ⟨hin, hname, huse⟩
    obtain ⟨x, hx, hname⟩ := Option.bind_eq_some_iff.mp hname
    have hnb : ¬x.isBlock := by
      rw [identifierName?] at hname
      rw [isBlock]
      split at hname <;> simp_all
    have hout : tree.IsOutside p l := by
      refine (isOutside_of_isIn h hx hnb hin).resolve_right ?_
      rintro ⟨_, q, step, f, rfl, hf, hfun, hstep⟩
      exact not_readsVariableIn hfun hstep
        (huse step (by simp [Location.child]) f (by simp [parentAt?_child, hf]))
    obtain ⟨o, ho, hl, hx, hp⟩ := exists_occurrence hn (isPrefix_of_isIn hin) hx hout
    exact ⟨o, ho, hl, hx ▸ hname, (isOwn_iff hn hb ho).mpr (hl ▸ hin), hl ▸ hp ▸ huse⟩

-- The declarations that are found for a block are those that bind in it.
theorem mem_declarations (h : tree.HasPlainFunctions) (hn : tree.at? p = some n) (hb : n.isBlock)
    {b : Binding} : b ∈ n.declarations p (tree.ownerAt? p) ↔
      ∃ kind l name, b = .declared kind l name ∧ tree.Declares p kind l name := by
  have hvars : (tree.ownerAt? p).all (·.node.isFunction) ↔
      ∀ owner ∈ tree.parentAt? p, owner.isFunction := by
    rw [← ownerAt?_node]
    cases tree.ownerAt? p <;> simp
  rw [declarations, ownerAt?_node, List.mem_append]
  constructor
  · rintro (hp | hvs)
    · cases ho : tree.ownerAt? p <;> simp only [ho, Option.map_none, Option.map_some,
        Option.getD_none, Option.getD_some, List.not_mem_nil] at hp
      case some o =>
        obtain ⟨q, hq, ho⟩ := Option.bind_eq_some_iff.mp ho
        obtain ⟨x, hx, ho⟩ := Option.map_eq_some_iff.mp ho
        subst ho
        obtain ⟨step, param, name, hf, hc, hname, hb⟩ := Owner.mem_parameters.mp hp
        exact ⟨_, _, _, hb, .parameter hq hx hf hc hname⟩
    · obtain ⟨o, ho, hv⟩ := List.mem_filterMap.mp hvs
      obtain ⟨hpl, hx, hout, hp⟩ := occurs_at hn ho
      rcases Occurrence.binding?_eq_some.mp hv with
        ⟨id, params, body, traits, hf, hown, name, hname, rfl⟩ | ⟨id, init, hf, hk, name, hname, rfl⟩
      · exact ⟨_, _, _, rfl, .function ((isOwn_iff hn hb ho).mp hown) hx hf hname⟩
      · rw [hp] at hk ⊢
        split at hk <;> rename_i hkind
        · exact ⟨_, _, _, hkind ▸ rfl, .var (hvars.mp hk) hpl hout hx hf hname hkind⟩
        · exact ⟨_, _, _, rfl, .lexical ((isOwn_iff hn hb ho).mp hk) hx hf hname hkind⟩
  · rintro ⟨kind, l, name, rfl, hd⟩
    cases hd
    case parameter q step owner param hq hx hf hc hname =>
      refine .inl ?_
      have ho : tree.ownerAt? p = some ⟨owner, q⟩ := by simp [ownerAt?, hq, hx]
      simp only [ho, Option.map_some, Option.getD_some]
      exact Owner.mem_parameters.mpr ⟨step, param, name, hf, hc, hname, rfl⟩
    case function x id params body traits hf hin hx hname =>
      have hout := isOutside_of_ne_identifier h hx (by simp [isBlock, hf])
        (by simp [type, hf, Form.type]) hin
      obtain ⟨o, ho, hl, ho', _⟩ := exists_occurrence hn (isPrefix_of_isIn hin) hx hout
      refine .inr (List.mem_filterMap.mpr ⟨o, ho, Occurrence.binding?_eq_some.mpr (.inl ?_)⟩)
      exact ⟨id, params, body, traits, ho' ▸ hf, (isOwn_iff hn hb ho).mpr (hl ▸ hin), name, hname,
        hl ▸ rfl⟩
    case lexical x id init hf hin hx hkind hname =>
      have hout := isOutside_of_ne_identifier h hx (by simp [isBlock, hf])
        (by simp [type, hf, Form.type]) hin
      obtain ⟨o, ho, hl, ho', hp⟩ := exists_occurrence hn (isPrefix_of_isIn hin) hx hout
      refine .inr (List.mem_filterMap.mpr ⟨o, ho, Occurrence.binding?_eq_some.mpr (.inr ?_)⟩)
      refine ⟨id, init, ho' ▸ hf, ?_, name, hname, by rw [hl, hp]⟩
      rw [hp, if_neg hkind]
      exact (isOwn_iff hn hb ho).mpr (hl ▸ hin)
    case var x id init hfun hf hpl hout hx hkind hname =>
      obtain ⟨o, ho, hl, ho', hp⟩ := exists_occurrence hn hpl hx hout
      refine .inr (List.mem_filterMap.mpr ⟨o, ho, Occurrence.binding?_eq_some.mpr (.inr ?_)⟩)
      refine ⟨id, init, ho' ▸ hf, ?_, name, hname, by rw [hl, hp, hkind]⟩
      rw [hp, if_pos hkind]
      exact hvars.mpr hfun

end Node
end ScriptTree
