import Decoration.Json.Token

/-! Reading JSON text: the tokens build a value with a stack of the containers still open. -/

namespace Decoration.Json

inductive Frame where
  | array (items : List Json)
  | object (members : List (String × Json)) (key : String)

inductive Expecting where
  | value
  | firstItem
  | afterItem (items : List Json)
  | firstKey
  | nextKey (members : List (String × Json))
  | colon (members : List (String × Json)) (key : String)
  | afterMember (members : List (String × Json))
  | finished (result : Json)

structure Build where
  frames : List Frame := []
  expecting : Expecting := .value

def depthLimit : Nat := 127

def complete (frames : List Frame) (v : Json) : Build :=
  match frames with
  | [] => ⟨[], .finished v⟩
  | .array items :: rest => ⟨rest, .afterItem (v :: items)⟩
  | .object members key :: rest => ⟨rest, .afterMember ((key, v) :: members)⟩

def startValue (frames : List Frame) : Token → Option Build
  | .value v => some (complete frames v)
  | .openArray => if frames.length < depthLimit then some ⟨frames, .firstItem⟩ else none
  | .openObject => if frames.length < depthLimit then some ⟨frames, .firstKey⟩ else none
  | _ => none

def buildStep (b : Build) (token : Token) : Option Build :=
  match b.expecting, token with
  | .value, _ => startValue b.frames token
  | .firstItem, .closeArray => some (complete b.frames (array []))
  | .firstItem, _ => startValue (.array [] :: b.frames) token
  | .afterItem items, .comma => some ⟨.array items :: b.frames, .value⟩
  | .afterItem items, .closeArray => some (complete b.frames (array items.reverse))
  | .firstKey, .closeObject => some (complete b.frames (object []))
  | .firstKey, .value (.string key) => some ⟨b.frames, .colon [] key⟩
  | .nextKey members, .value (.string key) => some ⟨b.frames, .colon members key⟩
  | .colon members key, .colon => some ⟨.object members key :: b.frames, .value⟩
  | .afterMember members, .comma => some ⟨b.frames, .nextKey members⟩
  | .afterMember members, .closeObject => some (complete b.frames (object members.reverse))
  | _, _ => none

def readFrom : Scan → Build → List Char → Option Json
  | scan, b, [] => do
    let tokens ← scanEnd scan
    let b ← tokens.foldlM buildStep b
    match b.expecting with
    | .finished v => some v
    | _ => none
  | scan, b, c :: rest => do
    let (scan, tokens) ← scanStep scan c
    let b ← tokens.foldlM buildStep b
    readFrom scan b rest

def read? (s : String) : Option Json := readFrom .between {} s.toList

end Decoration.Json
