import Mathlib.Data.List.ReduceOption
import ScriptTree.Proofs.Node.Children
import ScriptTree.Proofs.Token.Balance

/-!
Trees whose spans are made of tokens and nest: the children of a node stand in a row, one behind the
other, inside of its own span. The tokens of a span are balanced, but for parentheses at its ends.
-/

namespace ScriptTree

-- A token of the stream that is no trivia and takes up room.
structure Token.IsSolid (tokens : List Token) (t : Token) : Prop where
  mem         : t ∈ tokens
  significant : ¬t.isTrivia
  width       : t.span.start < t.span.stop

-- Is the token neither trivia nor the end of input?
def Token.isProper (t : Token) : Bool :=
  !t.isTrivia && t.kind != .endOfInput

-- The inner tokens are those of the span. With the parentheses around them they are balanced.
structure Span.Framed (span : Span) (opening inner closing : List Token) : Prop where
  balanced : Balanced (opening ++ inner ++ closing)
  opening  : ∀ t ∈ opening, t.kind = .operator .leftParen
  closing  : ∀ t ∈ closing, t.kind = .operator .rightParen
  first    : inner.head?.map (·.span.start) = some span.start
  last     : inner.getLast?.map (·.span.stop) = some span.stop

namespace Slot

variable {α β : Type}

-- What the field holds, without holes.
@[simp]
def contents : Slot α β → List α
  | required content _ => [content]
  | optional content _ => content.toList
  | list content _     => content
  | sparse content _   => content.reduceOption

theorem placed_map_snd (field : String) (i : Nat) (cs : List (Option α)) :
    (placed field i cs).map Prod.snd = cs.reduceOption := by
  induction cs generalizing i
  case nil => rfl
  case cons c cs ih => cases c <;> simp [placed, ih]

theorem children_map_snd (s : Slot α β) (field : String) :
    (s.children field).map Prod.snd = s.contents := by
  cases s
  case required => rfl
  case optional content put => cases content <;> rfl
  case list content put =>
    rw [children, placed_map_snd, contents, List.reduceOption, List.filterMap_map]
    exact List.filterMap_some
  case sparse => exact placed_map_snd ..

end Slot

namespace Form

variable {α : Type}

-- The children in the order in which a walk visits them.
def nodes (f : Form α) : List α :=
  f.children.map Prod.snd

@[simp]
theorem nodes_eq (f : Form α) : f.nodes = f.slots.flatMap fun entry => entry.2.contents := by
  simp only [nodes, children, List.map_flatMap, Slot.children_map_snd]

theorem nodes_map {β : Type} (f : α → β) (form : Form α) : (form.map f).nodes = form.nodes.map f := by
  rw [nodes, children_map, List.map_map, nodes, List.map_map]
  rfl

theorem map_id (form : Form α) : form.map id = form := by
  cases form <;> simp [map]

theorem map_map {β γ : Type} (f : α → β) (g : β → γ) (form : Form α) :
    (form.map f).map g = form.map (g ∘ f) := by
  cases form <;> simp [map]

theorem map_congr {β : Type} {f g : α → β} {form : Form α} (h : ∀ c ∈ form.nodes, f c = g c) :
    form.map f = form.map g := by
  simp only [nodes_eq] at h
  have hoption (o : Option α) (ho : ∀ c, o = some c → f c = g c) : o.map f = o.map g := Option.map_congr ho
  cases form <;> simp [slots, or_imp, forall_and] at h
  case arrayExpression elements =>
    refine congrArg arrayExpression (List.map_congr_left fun e he => hoption e fun c hc => h c ?_)
    exact List.reduceOption_mem_iff.mpr (hc ▸ he)
  all_goals simp [map] <;> grind

-- The text of a name or of a literal.
def text? : Form α → Option String
  | identifier name => some name
  | literal _ raw   => some raw
  | _               => none

-- Does the node start where its first child does, which is an operand?
def startsWithOperand : Form α → Bool
  | binaryExpression .. | assignmentExpression .. | conditionalExpression .. | sequenceExpression ..
  | callExpression .. | memberExpression .. => true
  | updateExpression _ isPrefix _           => !isPrefix
  | _                                       => false

-- Does the node end where its last child does, which is an operand?
def endsWithOperand : Form α → Bool
  | binaryExpression .. => true
  | _                   => false

-- Around the span stand those parentheses that its tokens lack. They belong to an operand that the node
-- starts or ends with.
def IsFramed (tokens : List Token) (span : Span) (f : Form α) : Prop :=
  ∃ opening inner closing, span.Framed opening inner closing ∧
    opening ++ inner ++ closing <:+: tokens.filter Token.isProper ∧
    (opening ≠ [] → f.startsWithOperand) ∧ (closing ≠ [] → f.endsWithOperand)

end Form

theorem Node.induct_nodes {holds : Node → Prop}
    (h : ∀ span form, (∀ c ∈ form.nodes, holds c) → holds (mk span form)) (n : Node) : holds n := by
  induction n using induct
  case h n ih =>
    obtain ⟨span, form⟩ := n
    refine h span form fun c hc => ?_
    obtain ⟨⟨step, c⟩, hstep, rfl⟩ := List.mem_map.mp hc
    exact ih step c (mem_children.mp hstep)

mutual

-- The span of the node is that of a token, or it reaches from one token to another one and the
-- children stand in between. Names and literals are tokens.
inductive Node.Nests (tokens : List Token) : Node → Prop where
  | leaf {t : Token} {form : Form Node} :
      t.IsSolid tokens → t.isProper → t.kind.isBracket = false → form.nodes = [] →
      (∀ text ∈ form.text?, t.value = text) → Node.Nests tokens (.mk t.span form)
  | node {span : Span} {form : Form Node} :
      (∃ t : Token, t.IsSolid tokens ∧ t.span.start = span.start) →
      (∃ t : Token, t.IsSolid tokens ∧ t.span.stop = span.stop) → span.start < span.stop →
      form.text? = none → form.IsFramed tokens span →
      Row tokens span.start form.nodes span.stop → Node.Nests tokens (.mk span form)

-- The nodes stand between two places, each behind the one before.
inductive Row (tokens : List Token) : (low : Nat) → List Node → (high : Nat) → Prop where
  | nil {low high : Nat} : low ≤ high → Row tokens low [] high
  | cons {low high : Nat} {n : Node} {ns : List Node} :
      low ≤ n.span.start → Node.Nests tokens n → Row tokens n.span.stop ns high →
      Row tokens low (n :: ns) high

end

namespace Node.Nests

variable {tokens : List Token} {n : Node}

theorem first (h : n.Nests tokens) : ∃ t : Token, t.IsSolid tokens ∧ t.span.start = n.span.start := by
  cases h with
  | leaf ht => exact ⟨_, ht, rfl⟩
  | node hf => exact hf

theorem last (h : n.Nests tokens) : ∃ t : Token, t.IsSolid tokens ∧ t.span.stop = n.span.stop := by
  cases h with
  | leaf ht => exact ⟨_, ht, rfl⟩
  | node _ hl => exact hl

theorem width (h : n.Nests tokens) : n.span.start < n.span.stop := by
  cases h with
  | leaf ht => exact ht.width
  | node _ _ hw => exact hw

theorem row (h : n.Nests tokens) : Row tokens n.span.start n.form.nodes n.span.stop := by
  cases h with
  | leaf ht _ _ hn => exact hn ▸ .nil (Nat.le_of_lt ht.width)
  | node _ _ _ _ _ hr => exact hr

theorem text {text : String} (h : n.Nests tokens) (ht : n.form.text? = some text) :
    ∃ t : Token, t.IsSolid tokens ∧ t.span = n.span ∧ t.value = text := by
  cases h with
  | leaf hs _ _ _ hv => exact ⟨_, hs, rfl, hv text ht⟩
  | node _ _ _ hn => exact absurd ht (hn ▸ nofun)

theorem isFramed (h : n.Nests tokens) : n.form.IsFramed tokens n.span := by
  cases h with
  | node _ _ _ _ hf => exact hf
  | @leaf t _ ht hp hb =>
    refine ⟨[], [t], [], ⟨?_, nofun, nofun, rfl, rfl⟩, ?_, absurd rfl, absurd rfl⟩
    · exact nesting?_cons (TokenKind.await?_of_not_isBracket hb)
    · obtain ⟨before, behind, h⟩ := List.append_of_mem (List.mem_filter.mpr ⟨ht.mem, hp⟩)
      exact ⟨before, behind, by simp [h]⟩

end Node.Nests

namespace Row

variable {tokens : List Token} {low low' high high' mid mid' : Nat} {n : Node} {ns ms : List Node}

theorem le (h : Row tokens low ns high) : low ≤ high := by
  induction ns generalizing low
  case nil => cases h with | nil hle => exact hle
  case cons n ns ih =>
    cases h with
    | cons hle hn hr => exact Nat.le_trans hle (Nat.le_trans (Nat.le_of_lt hn.width) (ih hr))

theorem lower (hle : low' ≤ low) (h : Row tokens low ns high) : Row tokens low' ns high := by
  cases h with
  | nil h => exact .nil (Nat.le_trans hle h)
  | cons h hn hr => exact .cons (Nat.le_trans hle h) hn hr

theorem upper (hle : high ≤ high') (h : Row tokens low ns high) : Row tokens low ns high' := by
  induction ns generalizing low
  case nil => cases h with | nil h => exact .nil (Nat.le_trans h hle)
  case cons n ns ih => cases h with | cons h hn hr => exact .cons h hn (ih hr)

theorem append (h : Row tokens low ns mid) (h' : Row tokens mid ms high) :
    Row tokens low (ns ++ ms) high := by
  induction ns generalizing low
  case nil => cases h with | nil h => exact h'.lower h
  case cons n ns ih => cases h with | cons h hn hr => exact .cons h hn (ih hr)

theorem singleton (h : n.Nests tokens) (hl : low ≤ n.span.start) (hh : n.span.stop ≤ high) :
    Row tokens low [n] high :=
  .cons hl h (.nil hh)

section single

variable (h : Row tokens low [n] high)
include h

theorem nests : n.Nests tokens := by
  cases h
  assumption

theorem start_ge : low ≤ n.span.start := by
  cases h
  assumption

theorem stop_le : n.span.stop ≤ high := by
  cases h with
  | cons _ _ h => exact h.le

end single

theorem nests_of_mem (h : Row tokens low ns high) (hn : n ∈ ns) : n.Nests tokens := by
  induction ns generalizing low
  case nil => cases hn
  case cons m ns ih =>
    cases h with
    | cons _ hm hr =>
      rcases List.mem_cons.mp hn with rfl | hn
      · exact hm
      · exact ih hr hn

theorem within_of_mem (h : Row tokens low ns high) (hn : n ∈ ns) :
    low ≤ n.span.start ∧ n.span.stop ≤ high := by
  induction ns generalizing low
  case nil => cases hn
  case cons m ns ih =>
    cases h with
    | cons hle hm hr =>
      rcases List.mem_cons.mp hn with rfl | hn
      · exact ⟨hle, hr.le⟩
      · have ⟨hl, hh⟩ := ih hr hn
        exact ⟨Nat.le_trans hle (Nat.le_trans (Nat.le_of_lt hm.width) hl), hh⟩

theorem pairwise (h : Row tokens low ns high) :
    ns.Pairwise fun n m => n.span.stop ≤ m.span.start := by
  induction ns generalizing low
  case nil => exact .nil
  case cons n ns ih =>
    cases h with
    | cons _ _ hr => exact .cons (fun m hm => (hr.within_of_mem hm).left) (ih hr)

end Row

namespace Node

variable {tokens : List Token} {n m : Node}

theorem mem_nodes_of_child? {step : Step} (h : n.child? step = some m) : m ∈ n.form.nodes :=
  List.mem_map.mpr ⟨(step, m), mem_children.mpr h, rfl⟩

theorem Nests.at? {l : Location} (h : n.Nests tokens) (hm : n.at? l = some m) : m.Nests tokens := by
  induction l generalizing n
  case nil =>
    cases hm
    exact h
  case cons step l ih =>
    obtain ⟨k, hk, hm⟩ := Option.bind_eq_some_iff.mp hm
    exact ih (h.row.nests_of_mem (mem_nodes_of_child? hk)) hm

end Node

end ScriptTree
