import Decoration.Capability.Memo
import Decoration.Proofs.Text.Numeral
import Decoration.Proofs.Text.Quoted
import Mathlib.Data.List.Forall2

/-! The text of an argument list in the key of a cached result says which arguments they were. -/

namespace Decoration.Memo

def heading : Value → String
  | .undefined => "undefined"
  | .null => "null"
  | .bool _ => "boolean"
  | .number _ => "number"
  | .string _ => "string"
  | .object _ => "object#"
  | .descriptor _ => "descriptor@"

def body : Value → String
  | .undefined => ":" ++ "undefined"
  | .null => ":" ++ "null"
  | .bool b => ":" ++ Descriptor.boolText b
  | .number n => ":" ++ n.text
  | .string s => ":" ++ Text.quote s
  | .object id => toString id.number
  | .descriptor handle => toString handle.index

theorem argumentText_eq (h : Heap) (v : Value) : argumentText h v = heading v ++ body v := by
  cases v with
  | object | descriptor => rfl
  | _ =>
    change h.typeName _ ++ ":" ++ h.display _ = _
    rw [Heap.typeName, Value.typeName, Heap.display, Heap.displayWithin, heading, body,
      String.append_assoc]

theorem argumentsText_eq (h h' : Heap) (arguments : List Value) :
    argumentsText h arguments = argumentsText h' arguments := by
  have htext : argumentText h = argumentText h' :=
    funext fun v => (argumentText_eq h v).trans (argumentText_eq h' v).symm
  rw [argumentsText, argumentsText, htext]

def mark : Value → List Char
  | .undefined => ['u', 'n', 'd']
  | .null => ['n', 'u', 'l']
  | .bool _ => ['b', 'o', 'o']
  | .number _ => ['n', 'u', 'm']
  | .string _ => ['s', 't', 'r']
  | .object _ => ['o', 'b', 'j']
  | .descriptor _ => ['d', 'e', 's']

theorem take_heading (v : Value) (rest : List Char) :
    ((heading v).toList ++ rest).take 3 = mark v := by
  have hlength : 3 ≤ (heading v).toList.length := by cases v <;> (rw [heading]; decide)
  rw [List.take_append_of_le_length hlength]
  cases v <;> (rw [heading, mark]; decide)

theorem string?_eq_none_iff {v : Value} : v.string? = none ↔ mark v ≠ ['s', 't', 'r'] := by
  cases v <;> simp [mark, Value.string?]

theorem isDigit_of_mem_toString {n : Nat} {c : Char} (h : c ∈ (toString n).toList) :
    c.isDigit = true := by
  rw [Nat.toString_eq_ofList_toDigits, String.toList_ofList] at h
  exact Nat.isDigit_of_mem_toDigits (by decide) (by decide) h

theorem comma_notMem_body {v : Value} (hv : v.string? = none) : ',' ∉ (body v).toList := by
  intro h
  cases v with
  | undefined | null => exact absurd h (by decide)
  | bool b => cases b <;> exact absurd h (by decide)
  | number n =>
    rw [body, String.toList_append, List.mem_append] at h
    rcases h with h | h
    · exact absurd h (by decide)
    · exact n.comma_notMem_text h
  | string s => exact nomatch hv
  | object id => exact absurd (isDigit_of_mem_toString h) (by decide)
  | descriptor handle => exact absurd (isDigit_of_mem_toString h) (by decide)

theorem body_inj {v v' : Value} (hmark : mark v = mark v') (h : body v = body v') : v = v' := by
  have hcolon : ∀ {s s' : String}, ":" ++ s = ":" ++ s' → s = s' := by
    intro s s' h
    have hlist := congrArg String.toList h
    rw [String.toList_append, String.toList_append] at hlist
    exact String.toList_inj.mp (List.append_cancel_left hlist)
  have hnumber : ∀ {m n : Nat}, toString m = toString n → m = n := by
    intro m n h
    have hdigits := congrArg (fun text : String => Nat.ofDigitChars 10 text.toList 0) h
    simpa [Nat.toString_eq_ofList_toDigits] using hdigits
  cases v <;> cases v' <;> try simp [mark] at hmark
  case undefined.undefined => rfl
  case null.null => rfl
  case bool.bool b b' =>
    have htext := hcolon h
    cases b <;> cases b' <;> first | rfl | exact absurd htext (by decide)
  case number.number n n' => exact congrArg Value.number (Number.text_injective (hcolon h))
  case string.string s s' =>
    have hquote := congrArg (fun text : String => text.toList ++ []) (hcolon h)
    exact congrArg Value.string (Text.quote_append_inj hquote).1
  case object.object => exact congrArg Value.object (ObjectId.number_injective (hnumber h))
  case descriptor.descriptor handle handle' =>
    have hindex := hnumber h
    cases handle
    cases handle'
    exact congrArg (Value.descriptor ∘ Handle.mk) hindex

theorem argumentText_append_inj (h : Heap) {v v' : Value} {rest rest' : List Char}
    (hrest : ∀ c ∈ rest.head?, c = ',') (hrest' : ∀ c ∈ rest'.head?, c = ',')
    (heq : (argumentText h v).toList ++ rest = (argumentText h v').toList ++ rest') :
    v = v' ∧ rest = rest' := by
  rw [argumentText_eq, argumentText_eq, String.toList_append, String.toList_append, List.append_assoc,
    List.append_assoc] at heq
  have hmark : mark v = mark v' := by
    rw [← take_heading v ((body v).toList ++ rest), heq, take_heading]
  have hheading : heading v = heading v' := by
    cases v <;> cases v' <;> first | rfl | simp [mark] at hmark
  rw [hheading] at heq
  have hbody := List.append_cancel_left heq
  -- Only a string may have a comma in it, and where its quotation ends can be told.
  cases hstring : v.string? with
  | none =>
    have hstring' : v'.string? = none := by
      rw [string?_eq_none_iff, ← hmark]
      exact string?_eq_none_iff.mp hstring
    obtain ⟨hsame, hrests⟩ := Text.append_inj_of_notMem (comma_notMem_body hstring)
      (comma_notMem_body hstring') hrest hrest' hbody
    exact ⟨body_inj hmark (String.toList_inj.mp hsame), hrests⟩
  | some s =>
    obtain rfl : v = .string s := by
      cases v <;> first | exact congrArg Value.string (Option.some.inj hstring) | exact nomatch hstring
    cases v' <;> try simp [mark] at hmark
    rename_i s'
    rw [body, body, String.toList_append, String.toList_append, List.append_assoc,
      List.append_assoc] at hbody
    obtain ⟨rfl, hrests⟩ := Text.quote_append_inj (List.append_cancel_left hbody)
    exact ⟨rfl, hrests⟩

def afterFirst (h : Heap) : List Value → List Char
  | [] => []
  | v :: rest => ',' :: ((argumentText h v).toList ++ afterFirst h rest)

theorem afterFirst_head? (h : Heap) (list : List Value) : ∀ c ∈ (afterFirst h list).head?, c = ',' := by
  cases list with
  | nil => exact fun _ hc => nomatch hc
  | cons v rest => exact fun _ hc => (Option.some.inj hc).symm

theorem toList_argumentsText_cons (h : Heap) (v : Value) (rest : List Value) :
    (argumentsText h (v :: rest)).toList = (argumentText h v).toList ++ afterFirst h rest := by
  rw [argumentsText, String.toList_intercalate]
  induction rest generalizing v with
  | nil => simp [afterFirst, List.intercalate]
  | cons v' rest ih =>
    have hstep := ih v'
    simp only [List.map_cons] at hstep ⊢
    rw [List.intercalate_cons_cons, hstep, afterFirst, List.append_assoc]
    rfl

theorem afterFirst_injective (h : Heap) : Function.Injective (afterFirst h) := by
  intro list
  induction list with
  | nil =>
    intro list' heq
    cases list' with
    | nil => rfl
    | cons => exact nomatch heq
  | cons v rest ih =>
    intro list' heq
    cases list' with
    | nil => exact nomatch heq
    | cons v' rest' =>
      obtain ⟨rfl, hrest⟩ := argumentText_append_inj h (afterFirst_head? h rest)
        (afterFirst_head? h rest') (List.cons.inj heq).2
      rw [ih hrest]

theorem argumentsText_injective (h : Heap) : Function.Injective (argumentsText h) := by
  have hempty : ∀ v rest, argumentsText h [] ≠ argumentsText h (v :: rest) := by
    intro v rest heq
    have hlist := congrArg (fun text : String => text.toList.take 3) heq
    rw [toList_argumentsText_cons, argumentText_eq, String.toList_append, List.append_assoc,
      take_heading] at hlist
    cases v <;> exact nomatch hlist
  intro list list' heq
  match list, list' with
  | [], [] => rfl
  | [], v :: rest => exact absurd heq (hempty v rest)
  | v :: rest, [] => exact absurd heq.symm (hempty v rest)
  | v :: rest, v' :: rest' =>
    have hlist := congrArg String.toList heq
    rw [toList_argumentsText_cons, toList_argumentsText_cons] at hlist
    obtain ⟨rfl, hrest⟩ := argumentText_append_inj h (afterFirst_head? h rest)
      (afterFirst_head? h rest') hlist
    rw [afterFirst_injective h hrest]

/-- Two lists of arguments have the same text, at whatever moments they are written, if there are as many
values in one as in the other and each is the same as its counterpart, and not otherwise. -/
theorem argumentsText_eq_iff (h h' : Heap) (list list' : List Value) :
    argumentsText h list = argumentsText h' list' ↔
      list.length = list'.length ∧ ∀ v v', (v, v') ∈ list.zip list' → v.same v' = true := by
  have hsame : ∀ v v' : Value, v.same v' = true ↔ v = v' := fun v v' => decide_eq_true_iff
  have hpairwise : (list.length = list'.length ∧ ∀ v v', (v, v') ∈ list.zip list' → v.same v' = true) ↔
      list = list' := by
    simp only [hsame]
    rw [← List.forall₂_eq_eq_eq, List.forall₂_iff_zip]
  rw [hpairwise, argumentsText_eq h' h]
  exact (argumentsText_injective h).eq_iff

end Decoration.Memo
