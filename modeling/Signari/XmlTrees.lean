import Mathlib.Data.List.Basic

/-!
# Parsed XML documents

A document after its parser, as a tree: an element with its attributes and its children, or a
piece of something that is no element. Reading follows the paths of `etree`, where a step names
the local part of a tag only and an attribute is found by its local name, a namespace
declaration included.

`Inside t e` says that `e` occurs at some depth of `t`, `t` itself included.
-/
namespace Signari.XmlTrees
open List

structure Attr where
  space : String := ""
  key : String
  value : String

/-- `xmlns="..."` and `xmlns:name="..."` bind prefixes; they are no attributes of the element. -/
def Attr.declares (a : Attr) : Bool := a.space == "xmlns" || (a.space == "" && a.key == "xmlns")

inductive Node where
  | elem (space tag : String) (attrs : List Attr) (children : List Node)
  | chars (data : String)
  | comment (data : String)
  | other (data : String)

def Node.isElem : Node → Bool
  | .elem .. => true
  | _ => false

def Node.tag : Node → String
  | .elem _ t _ _ => t
  | _ => ""

def Node.attrs : Node → List Attr
  | .elem _ _ as _ => as
  | _ => []

def Node.children : Node → List Node
  | .elem _ _ _ ns => ns
  | _ => []

def Node.elements (n : Node) : List Node := n.children.filter (·.isElem)

/-- The character data up to the first child that is neither data nor a comment. -/
def leadingText : List Node → String
  | .chars d :: ns => d ++ leadingText ns
  | .comment _ :: ns => leadingText ns
  | _ => ""

/-- `Element.Text`. -/
def Node.text (n : Node) : String := leadingText n.children

/-- `Element.SelectAttrValue` with the empty text as the default. -/
def Node.attrValue (n : Node) (key : String) : String :=
  ((n.attrs.find? (·.key == key)).map (·.value)).getD ""

/-- The element has an attribute of this local name and value. -/
def Node.hasAttr (n : Node) (key value : String) : Prop :=
  ∃ a ∈ n.attrs, a.declares = false ∧ a.key = key ∧ a.value = value

/-- `Element.FindElements` of a path of child steps. -/
def Node.findAll (n : Node) : List String → List Node
  | [] => [n]
  | t :: ts => (n.elements.filter (·.tag == t)).flatMap fun c => c.findAll ts

/-- `Element.FindElement` of a path of child steps. -/
def Node.find (n : Node) (path : List String) : Option Node := (n.findAll path).head?

mutual

def descendants : Node → List Node
  | .elem s t as ns => .elem s t as ns :: descendantsOf ns
  | n => [n]

def descendantsOf : List Node → List Node
  | [] => []
  | n :: ns => descendants n ++ descendantsOf ns

end

inductive Inside (t : Node) : Node → Prop where
  | here : Inside t t
  | child {e c : Node} : Inside t e → c ∈ e.children → Inside t c

theorem Inside.trans {t e d : Node} (h : Inside t e) (h' : Inside e d) : Inside t d := by
  induction h' with
  | here => exact h
  | child _ hc ih => exact .child ih hc

theorem inside_of_findAll {n e : Node} {path : List String} (h : e ∈ n.findAll path) :
    Inside n e := by
  induction path generalizing n with
  | nil =>
    rw [mem_singleton.mp h]
    exact .here
  | cons t ts ih =>
    rw [Node.findAll, mem_flatMap] at h
    obtain ⟨c, hc, he⟩ := h
    have hchild : c ∈ n.children := mem_of_mem_filter (mem_of_mem_filter hc)
    exact (Inside.child .here hchild).trans (ih he)

theorem tag_of_findAll {n e : Node} {path : List String} {t : String} (h : e ∈ n.findAll path)
    (ht : path.getLast? = some t) : e.tag = t := by
  induction path generalizing n with
  | nil => cases ht
  | cons s ss ih =>
    rw [Node.findAll, mem_flatMap] at h
    obtain ⟨c, hc, he⟩ := h
    cases ss with
    | nil =>
      obtain rfl := mem_singleton.mp he
      obtain rfl : s = t := by simpa using ht
      simpa using (mem_filter.mp hc).2
    | cons s' ss => exact ih he (by simpa using ht)

theorem inside_of_find {n e : Node} {path : List String} (h : n.find path = some e) : Inside n e :=
  inside_of_findAll (mem_of_head? h)

theorem mem_descendantsOf {ns : List Node} {e : Node} :
    e ∈ descendantsOf ns ↔ ∃ n ∈ ns, e ∈ descendants n := by
  induction ns with
  | nil => simp [descendantsOf]
  | cons n ns ih => simp [descendantsOf, ih]

theorem self_mem_descendants (n : Node) : n ∈ descendants n := by
  cases n <;> simp [descendants]

theorem children_mem_descendants {n c : Node} (h : c ∈ n.children) : c ∈ descendants n := by
  cases n with
  | elem s t as ns =>
    rw [descendants, mem_cons, mem_descendantsOf]
    exact .inr ⟨c, h, self_mem_descendants c⟩
  | chars d => cases h
  | comment d => cases h
  | other d => cases h

mutual

theorem child_mem_descendants {n e c : Node} (he : e ∈ descendants n) (hc : c ∈ e.children) :
    c ∈ descendants n := by
  cases n with
  | elem s t as ns =>
    rw [descendants, mem_cons] at he
    obtain rfl | he := he
    · exact children_mem_descendants hc
    · rw [descendants, mem_cons]
      exact .inr (child_mem_descendantsOf he hc)
  | chars d | comment d | other d =>
    rw [mem_singleton.mp he] at hc
    cases hc

theorem child_mem_descendantsOf {ns : List Node} {e c : Node} (he : e ∈ descendantsOf ns)
    (hc : c ∈ e.children) : c ∈ descendantsOf ns := by
  cases ns with
  | nil => cases he
  | cons n ns =>
    rw [descendantsOf, mem_append] at he ⊢
    obtain he | he := he
    · exact .inl (child_mem_descendants he hc)
    · exact .inr (child_mem_descendantsOf he hc)

end

theorem Inside.mem_descendants {t e : Node} (h : Inside t e) : e ∈ descendants t := by
  induction h with
  | here => exact self_mem_descendants t
  | child _ hc ih => exact child_mem_descendants ih hc

/-- The text of an element of the tree, without the white space around it where `trim` says. -/
def TextIn (t : Node) (trim : String → String) (s : String) : Prop :=
  ∃ e, Inside t e ∧ trim e.text = s

def ValueIn (t : Node) (key s : String) : Prop :=
  ∃ e, Inside t e ∧ ∃ a ∈ e.attrs, a.key = key ∧ a.value = s

theorem attrValue_mem {n : Node} {key : String} (h : n.attrValue key ≠ "") :
    ∃ a ∈ n.attrs, a.key = key ∧ a.value = n.attrValue key := by
  cases hf : n.attrs.find? (·.key == key) with
  | none => simp [Node.attrValue, hf] at h
  | some a =>
    refine ⟨a, mem_of_find?_eq_some hf, ?_, ?_⟩
    · simpa using find?_some hf
    · simp [Node.attrValue, hf]

theorem Inside.valueIn {t e : Node} {key : String} (h : Inside t e) (hv : e.attrValue key ≠ "") :
    ValueIn t key (e.attrValue key) :=
  ⟨e, h, attrValue_mem hv⟩

end Signari.XmlTrees
