import ScriptEngine.Toml.Scalar

-- Reading whole TOML documents.

namespace ScriptEngine.Toml

def isBareKey (c : Char) : Bool :=
  c.isAlphanum || c = '_' || c = '-'

-- A comment, if there is one.
def skipComment : List Char → List Char
  | '#' :: rest => rest.dropWhile isText
  | text => text

-- Blanks, a comment and the end of the line or of the document.
def lineEnd? (text : List Char) : Option (List Char) :=
  match skipComment (skipBlanks text) with
  | [] => some []
  | rest => newline? rest

-- Blanks, comments and line breaks between the items of an array. A comment ends with its line.
def skipGap : Nat → List Char → Option (List Char)
  | 0, _ => none
  | fuel + 1, text =>
    match skipBlanks text with
    | '#' :: rest => do skipGap fuel (← newline? (rest.dropWhile isText))
    | rest =>
      match newline? rest with
      | some below => skipGap fuel below
      | none => some rest

def simpleKey? (text : List Char) : Option (String × List Char) :=
  match text with
  | '"' :: rest =>
    (basicString (text.length + 1) rest).map fun (key, rest) => (String.ofList key, rest)
  | '\'' :: rest => (literalString rest).map fun (key, rest) => (String.ofList key, rest)
  | _ =>
    match text.takeWhile isBareKey with
    | [] => none
    | key => some (String.ofList key, text.drop key.length)

-- A dotted key with blanks around its parts: the parts before the last one, and the last one.
def key? : Nat → List Char → Option ((List String × String) × List Char)
  | 0, _ => none
  | fuel + 1, text => do
    let (first, rest) ← simpleKey? (skipBlanks text)
    match skipBlanks rest with
    | '.' :: rest => do
      let ((path, last), rest) ← key? fuel rest
      return ((first :: path, last), rest)
    | rest => return (([], first), rest)

-- Arrays and tables in braces nest less deep than this, and dotted keys have fewer parts.
def nestingLimit : Nat := 80

def limitedKey? (text : List Char) : Option ((List String × String) × List Char) := do
  let ((path, last), rest) ← key? (text.length + 1) text
  if path.length + 1 < nestingLimit then return ((path, last), rest) else none

mutual

def value? : Nat → Nat → List Char → Option (Item × List Char)
  | 0, _, _ => none
  | fuel + 1, depth, text =>
    match text with
    | '"' :: _ | '\'' :: _ =>
      (string? text).map fun (body, rest) => (.string (String.ofList body), rest)
    | '[' :: rest =>
      if depth + 1 < nestingLimit then do
        let (items, rest) ← items? fuel (depth + 1) (← skipGap fuel rest)
        return (.array items, rest)
      else none
    | '{' :: rest =>
      if depth + 1 < nestingLimit then
        match skipBlanks rest with
        | '}' :: rest => some (.table .closed [], rest)
        | rest => do
          let (entries, rest) ← pairs? fuel (depth + 1) [] rest
          return (.table .closed entries, rest)
      else none
    | 't' :: 'r' :: 'u' :: 'e' :: rest => some (.boolean true, rest)
    | 'f' :: 'a' :: 'l' :: 's' :: 'e' :: rest => some (.boolean false, rest)
    | _ =>
      match datetime? text with
      | some found => some found
      | none => number? text

-- The items of an array up to its closing bracket. A comma may stand before it.
def items? : Nat → Nat → List Char → Option (List Item × List Char)
  | 0, _, _ => none
  | fuel + 1, depth, text =>
    match text with
    | ']' :: rest => some ([], rest)
    | _ => do
      let (first, rest) ← value? fuel depth text
      match ← skipGap fuel rest with
      | ']' :: rest => return ([first], rest)
      | ',' :: rest => do
        let (more, rest) ← items? fuel depth (← skipGap fuel rest)
        return (first :: more, rest)
      | _ => none

-- Keys with values up to a closing brace, added to those before them.
def pairs? : Nat → Nat → Entries → List Char → Option (Entries × List Char)
  | 0, _, _, _ => none
  | fuel + 1, depth, entries, text => do
    let ((path, key), rest) ← limitedKey? text
    let (item, rest) ← value? fuel depth (skipBlanks (← mark? '=' rest))
    let entries ← addValue path key item .defined entries
    match skipBlanks rest with
    | '}' :: rest => return (entries, rest)
    | ',' :: rest => pairs? fuel depth entries rest
    | _ => none

end

-- A document in the making: the root, and the path of the table that the last header opened.
structure Draft where
  root : Entries
  path : List String

-- A header, behind its first bracket.
def header? (draft : Draft) (text : List Char) : Option (Draft × List Char) :=
  match text with
  | '[' :: rest => do
    let ((path, key), rest) ← limitedKey? rest
    let rest ← lineEnd? (← mark? ']' (← mark? ']' rest))
    return (⟨← addRow path key draft.root, path ++ [key]⟩, rest)
  | _ => do
    let ((path, key), rest) ← limitedKey? text
    let rest ← lineEnd? (← mark? ']' rest)
    return (⟨← addTable path key draft.root, path ++ [key]⟩, rest)

def keyValue? (draft : Draft) (text : List Char) : Option (Draft × List Char) := do
  let ((path, key), rest) ← limitedKey? text
  let (item, rest) ← value? (2 * (text.length + 1)) 0 (skipBlanks (← mark? '=' rest))
  let root ← within false (addValue path key item) draft.path .defined draft.root
  return (⟨root, draft.path⟩, ← lineEnd? rest)

def lines? : Nat → Draft → List Char → Option Draft
  | 0, _, _ => none
  | fuel + 1, draft, text =>
    match skipBlanks text with
    | [] => some draft
    | '[' :: rest => do
      let (draft, rest) ← header? draft rest
      lines? fuel draft rest
    | '#' :: rest => do lines? fuel draft (← lineEnd? ('#' :: rest))
    | rest =>
      match newline? rest with
      | some below => lines? fuel draft below
      | none => do
        let (draft, rest) ← keyValue? draft rest
        lines? fuel draft rest

-- The root table of a document. A byte order mark before it does not count.
def read? (text : List Char) : Option Entries :=
  let body := match text with
    | c :: rest => if c.toNat = 0xfeff then rest else text
    | [] => []
  (lines? (body.length + 1) ⟨[], []⟩ body).map Draft.root

end ScriptEngine.Toml
