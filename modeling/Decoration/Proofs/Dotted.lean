import Decoration.Expr
import Mathlib.Data.List.Basic

/-! Dotted paths. The text of a path is what it was read from, and an identifier with members after it is
read back from its text if no name in it has a dot. -/

namespace Decoration

namespace Expr

/-- An identifier, or members one after another of one, with no dot in any of the names. -/
def Dotted : Expr → Prop
  | literal _ => False
  | identifier name => '.' ∉ name.toList
  | member object property => object.Dotted ∧ '.' ∉ property.toList

def members (x : Expr) (others : List (List Char)) : Expr :=
  others.foldl (fun object property => member object (String.ofList property)) x

theorem path_eq (s : String) :
    path s = members (identifier (String.ofList (segments s.toList).1)) (segments s.toList).2 := rfl

theorem segments_join (cs : List Char) :
    (segments cs).1 ++ (segments cs).2.flatMap ('.' :: ·) = cs := by
  induction cs with
  | nil => rfl
  | cons c rest ih =>
    by_cases hc : c = '.'
    · simpa [segments, hc] using ih
    · simpa [segments, hc] using ih

theorem dot_notMem_segments (cs : List Char) :
    ∀ segment ∈ (segments cs).1 :: (segments cs).2, '.' ∉ segment := by
  induction cs with
  | nil => simp [segments]
  | cons c rest ih =>
    have hfirst := ih _ List.mem_cons_self
    by_cases hc : c = '.'
    · simpa [segments, hc] using ih
    · have hothers := fun segment hs => ih segment (List.mem_cons_of_mem _ hs)
      simpa [segments, hc, Ne.symm hc, hfirst] using hothers

theorem segments_of_dot_notMem {cs : List Char} (h : '.' ∉ cs) : segments cs = (cs, []) := by
  induction cs with
  | nil => rfl
  | cons c rest ih =>
    obtain ⟨hc, hrest⟩ := List.ne_and_not_mem_of_not_mem_cons h
    simp [segments, ih hrest, Ne.symm hc]

theorem segments_append {last : List Char} (h : '.' ∉ last) (cs : List Char) :
    segments (cs ++ '.' :: last) = ((segments cs).1, (segments cs).2 ++ [last]) := by
  induction cs with
  | nil => simp [segments, segments_of_dot_notMem h]
  | cons c rest ih =>
    by_cases hc : c = '.'
    · simp [segments, ih, hc]
    · simp [segments, ih, hc]

theorem toList_text_members (x : Expr) (others : List (List Char)) :
    (x.members others).text.toList = x.text.toList ++ others.flatMap ('.' :: ·) := by
  induction others generalizing x with
  | nil => simp [members]
  | cons first rest ih =>
    have hrest := ih (member x (String.ofList first))
    simpa [members, text] using hrest

theorem dotted_members {x : Expr} (hx : x.Dotted) {others : List (List Char)}
    (h : ∀ segment ∈ others, '.' ∉ segment) : (x.members others).Dotted := by
  induction others generalizing x with
  | nil => exact hx
  | cons first rest ih =>
    obtain ⟨hfirst, hrest⟩ := List.forall_mem_cons.mp h
    have hmember : (member x (String.ofList first)).Dotted := ⟨hx, by simpa using hfirst⟩
    exact ih hmember hrest

theorem text_path (s : String) : (path s).text = s := by
  apply String.toList_inj.mp
  rw [path_eq, toList_text_members, text, String.toList_ofList]
  exact segments_join s.toList

theorem dotted_path (s : String) : (path s).Dotted := by
  obtain ⟨hfirst, hothers⟩ := List.forall_mem_cons.mp (dot_notMem_segments s.toList)
  have hidentifier : (identifier (String.ofList (segments s.toList).1)).Dotted := by
    simpa [Dotted] using hfirst
  rw [path_eq]
  exact dotted_members hidentifier hothers

theorem path_append (s : String) {name : String} (h : '.' ∉ name.toList) :
    path (s ++ "." ++ name) = member (path s) name := by
  have hsegments : segments (s ++ "." ++ name).toList =
      ((segments s.toList).1, (segments s.toList).2 ++ [name.toList]) := by
    rw [← segments_append h]
    simp
  rw [path_eq, path_eq, hsegments]
  simp [members]

theorem path_text {x : Expr} (h : x.Dotted) : path x.text = x := by
  induction x with
  | literal value => exact h.elim
  | identifier name => simp [text, path_eq, segments_of_dot_notMem h, members]
  | member object property ih =>
    obtain ⟨hobject, hproperty⟩ := h
    rw [text, path_append _ hproperty, ih hobject]

theorem text_inj {x y : Expr} (hx : x.Dotted) (hy : y.Dotted) (h : x.text = y.text) : x = y := by
  have hread := congrArg path h
  rwa [path_text hx, path_text hy] at hread

end Expr

theorem DecoratorExpr.label_path (name : String) :
    label { callee := Expr.path name } = "@" ++ name := by
  simp [label, Expr.text_path]

/-- Reading a path and writing it are inverse to each other, for any text on one side and for dotted
expressions on the other. So dotted expressions are told from their text, and decorators without
arguments are labelled by what was written. -/
theorem Expr.path_roundTrip :
    (∀ s, (path s).Dotted ∧ (path s).text = s) ∧
    (∀ x : Expr, x.Dotted → path x.text = x) ∧
    (∀ x y : Expr, x.Dotted → y.Dotted → (x.text = y.text ↔ x = y)) ∧
    ∀ name, DecoratorExpr.label { callee := path name } = "@" ++ name := by
  refine ⟨fun s => ⟨dotted_path s, text_path s⟩, fun x hx => path_text hx, ?_,
    DecoratorExpr.label_path⟩
  intro x y hx hy
  constructor
  · exact text_inj hx hy
  · rintro rfl
    rfl

theorem Expr.path_roundTrip_emptyNames :
    (path ".ns..deco.").text = ".ns..deco." ∧
    (member (member (identifier "ns") "") "deco").Dotted ∧
    path "ns..deco" = member (member (identifier "ns") "") "deco" ∧
    "ns..deco" ≠ (member (identifier "ns") "deco").text ∧
    DecoratorExpr.label { callee := path ".ns..deco." } = "@.ns..deco." := by
  obtain ⟨hpath, hread, htold, hlabel⟩ := path_roundTrip
  have hdotted : (member (member (identifier "ns") "") "deco").Dotted := by simp [Dotted]
  have hother : (member (identifier "ns") "deco").Dotted := by simp [Dotted]
  refine ⟨(hpath _).2, hdotted, hread _ hdotted, ?_, hlabel _⟩
  intro heq
  have hsame := (htold _ _ hdotted hother).mp heq
  simp at hsame

end Decoration
