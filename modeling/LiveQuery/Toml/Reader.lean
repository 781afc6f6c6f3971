import LiveQuery.Toml.Scalar
import LiveQuery.Toml.Text

/-!
# Reading TOML

A document is read line by line. A header says to which table the following entries belong; entries
before the first header belong to the document itself.
-/

namespace LiveQuery.Toml

mutual

/-- A value, with at most `depth` arrays and tables nested in it. -/
def value : Nat → Nat → List Char → Option (Toml × List Char)
  | 0, _, _ => none
  | fuel + 1, depth, cs =>
    match cs with
    | '\x22' :: _ => (anyString cs).map fun (s, rest) => (.string s, rest)
    | '\x27' :: _ => (anyString cs).map fun (s, rest) => (.string s, rest)
    | '[' :: rest =>
      match depth with
      | 0 => none
      | depth + 1 => (items fuel depth rest).map fun (vs, rest) => (.array vs, rest)
    | '\x7b' :: rest =>
      match depth with
      | 0 => none
      | depth + 1 =>
        match skipBlanks rest with
        | '\x7d' :: rest => some (.inlined [], rest)
        | rest => (inlineEntries fuel depth [] rest).map fun (es, rest) => (.inlined es, rest)
    | cs => scalar cs

/-- The items of an array and its closing bracket. They may stand on several lines, and a comma may
follow the last one. -/
def items : Nat → Nat → List Char → Option (List Toml × List Char)
  | 0, _, _ => none
  | fuel + 1, depth, cs => do
    match ← skipLines (cs.length + 1) cs with
    | ']' :: rest => pure ([], rest)
    | cs =>
      let (v, rest) ← value fuel depth cs
      match ← skipLines (rest.length + 1) rest with
      | ',' :: rest =>
        let (vs, rest) ← items fuel depth rest
        pure (v :: vs, rest)
      | ']' :: rest => pure ([v], rest)
      | _ => none

/-- The entries of a table in braces that has some, added to those before them, and its closing
brace. -/
def inlineEntries : Nat → Nat → Entries → List Char → Option (Entries × List Char)
  | 0, _, _, _ => none
  | fuel + 1, depth, entries, cs => do
    let (path, key, rest) ← dottedKey cs
    match rest with
    | '=' :: rest =>
      let (v, rest) ← value fuel depth (skipBlanks rest)
      let entries ← addEntry path key v entries
      match skipBlanks rest with
      | ',' :: rest => inlineEntries fuel depth entries rest
      | '\x7d' :: rest => pure (entries, rest)
      | _ => none
    | _ => none

end

/-- A document that has been read in part: what it holds so far, and the header whose entries
follow. -/
structure Draft where
  document : Entries
  header : List String

/-- A header, read behind its first bracket. -/
def header (draft : Draft) (cs : List Char) : Option (Draft × List Char) :=
  match cs with
  | '[' :: cs => do
    let (path, key, rest) ← dottedKey cs
    match rest with
    | ']' :: ']' :: rest => pure (⟨← openTables path key draft.document, path ++ [key]⟩, rest)
    | _ => none
  | cs => do
    let (path, key, rest) ← dottedKey cs
    match rest with
    | ']' :: rest => pure (⟨← openTable path key draft.document, path ++ [key]⟩, rest)
    | _ => none

/-- An entry: a key, an equals sign and a value. -/
def entry (draft : Draft) (cs : List Char) : Option (Draft × List Char) := do
  let (path, key, rest) ← dottedKey cs
  match rest with
  | '=' :: rest =>
    let (v, rest) ← value (2 * rest.length + 2) maxDepth (skipBlanks rest)
    pure (⟨← addBelow draft.header path key v draft.document, draft.header⟩, rest)
  | _ => none

def lines : Nat → Draft → List Char → Option Draft
  | 0, _, _ => none
  | fuel + 1, draft, cs =>
    match skipBlanks cs with
    | [] => some draft
    | '#' :: rest => (lineEnd? (rest.dropWhile isTextChar)).bind fun rest => lines fuel draft rest
    | '[' :: rest => do
      let (draft, rest) ← header draft rest
      lines fuel draft (← lineEnd? rest)
    | cs =>
      match lineBreak? cs with
      | some rest => lines fuel draft rest
      | none => do
        let (draft, rest) ← entry draft cs
        lines fuel draft (← lineEnd? rest)

/-- The entries of a document. A byte order mark in front is dropped. -/
def parse (text : String) : Option Entries :=
  let cs := match text.toList with
    | '\ufeff' :: rest => rest
    | cs => cs
  (lines (cs.length + 1) ⟨[], []⟩ cs).map Draft.document

end LiveQuery.Toml
