import Decoration.Number.Reader
import Decoration.Toml.Spacing

/-! Quoted text of TOML: in double quotes with escapes, in single quotes without, on one line or, in
triple quotes, on several. -/

namespace Decoration.Toml

structure QuoteStyle where
  quote : Char
  multiline : Bool

namespace QuoteStyle

def hasEscapes (s : QuoteStyle) : Bool := s.quote == '"'

end QuoteStyle

inductive QuoteScan where
  | plain
  | backslash
  | code (missing value : Nat)
  | folding
  | folded
  | quotes (count : Nat)

namespace QuoteScan

def shortEscape? : Char → Option Char
  | 'b' => some '\x08'
  | 'f' => some '\x0c'
  | 'n' => some '\n'
  | 'r' => some '\r'
  | 't' => some '\t'
  | '"' => some '"'
  | '\\' => some '\\'
  | _ => none

def plainStep (s : QuoteStyle) (c : Char) : Option (QuoteScan × List Char) :=
  if c = '\\' && s.hasEscapes then some (backslash, [])
  else if isTextChar c || (c = '\n' && s.multiline) then some (plain, [c])
  else none

def step (s : QuoteStyle) : QuoteScan → Char → Option (QuoteScan × List Char)
  | backslash, c =>
    if c = 'u' then some (code 4 0, [])
    else if c = 'U' then some (code 8 0, [])
    else if s.multiline && isBlank c then some (folding, [])
    else if s.multiline && c = '\n' then some (folded, [])
    else (shortEscape? c).map fun e => (plain, [e])
  | code missing value, c => do
    let value := value * 16 + (← Text.hexValue? c)
    if missing = 1 then if value.isValidChar then some (plain, [Char.ofNat value]) else none
    else some (code (missing - 1) value, [])
  | folding, c =>
    if isBlank c then some (folding, []) else if c = '\n' then some (folded, []) else none
  | folded, c => if isBlank c || c = '\n' then some (folded, []) else plainStep s c
  | quotes count, c =>
    (plainStep s c).map fun (scan, added) => (scan, added ++ List.replicate count s.quote)
  | plain, c => plainStep s c

def quoteCount? : QuoteScan → Option Nat
  | plain | folded => some 0
  | quotes count => some count
  | _ => none

end QuoteScan

/-- The text up to its closing quotes. Text on several lines may have up to two quotes right before
those that close it. What has been read is kept reversed. -/
def quotedBody (s : QuoteStyle) : QuoteScan → List Char → List Char →
    Option (List Char × List Char)
  | .quotes count, read, [] =>
    if 3 ≤ count then some ((List.replicate (count - 3) s.quote ++ read).reverse, []) else none
  | _, _, [] => none
  | scan, read, c :: rest =>
    match scan.quoteCount? with
    | some count =>
      if 3 ≤ count ∧ (c ≠ s.quote ∨ count = 5) then
        some ((List.replicate (count - 3) s.quote ++ read).reverse, c :: rest)
      else if c = s.quote then
        if s.multiline then quotedBody s (.quotes (count + 1)) read rest
        else some (read.reverse, rest)
      else
        match scan.step s c with
        | some (scan, added) => quotedBody s scan (added ++ read) rest
        | none => none
    | none =>
      match scan.step s c with
      | some (scan, added) => quotedBody s scan (added ++ read) rest
      | none => none

def finishQuoted (r : Option (List Char × List Char)) : Option (String × List Char) :=
  r.map fun (text, rest) => (String.ofList text, rest)

def quotedLine (quote : Char) (cs : List Char) : Option (String × List Char) :=
  finishQuoted (quotedBody ⟨quote, false⟩ .plain [] cs)

def quotedLines (quote : Char) (cs : List Char) : Option (String × List Char) :=
  let body := match cs with
    | '\n' :: rest => rest
    | _ => cs
  finishQuoted (quotedBody ⟨quote, true⟩ .plain [] body)

def quoted (quote : Char) : List Char → Option (String × List Char)
  | a :: b :: rest =>
    if a = quote ∧ b = quote then quotedLines quote rest else quotedLine quote (a :: b :: rest)
  | cs => quotedLine quote cs

end Decoration.Toml
