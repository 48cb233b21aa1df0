/-!
# Tokens of a template source

A template source is text with tokens in it:

* `${name}` is a marker,
* `${{name}` starts a wrapper and `}}` ends one,
* `${}` and `${{}}` are content markers.

A name is a letter followed by letters, digits, `-` and `_`. Everything that is
no token is text. `pieces` splits a source into single characters of text and
tokens, left to right; `Token.ofSource` gives the tokens alone.

No two tokens start in the same place, so the only choice is made at `}}`: the
braces inside `${{}}` belong to it, because it starts earlier.
-/

namespace HtmlTemplate

/-- What a token says. -/
inductive TokenKind where
  | content
  | wrapperEnd
  | wrapperStart (name : String)
  | plain (name : String)
  deriving DecidableEq, Repr

namespace TokenKind

/-- The name in the token. -/
def name? : TokenKind → Option String
  | wrapperStart name => some name
  | plain name => some name
  | content => none
  | wrapperEnd => none

/-- Whether the token uses up a declaration. -/
def isNamed (kind : TokenKind) : Bool := kind.name?.isSome

end TokenKind

/-- A token and the byte offsets in the source between which it stands. -/
structure Token where
  kind : TokenKind
  start : Nat
  stop : Nat
  deriving DecidableEq, Repr

/-- A part of a source: one character of text, or a token. -/
inductive Piece where
  | text (c : Char)
  | token (t : Token)
  deriving DecidableEq, Repr

namespace Token

/-- Whether a name may start with `c`. -/
def isNameStart (c : Char) : Bool := c.isAlpha

/-- Whether `c` may stand in a name after its first character. -/
def isNamePart (c : Char) : Bool := c.isAlphanum || c = '-' || c = '_'

/-- Reads a name and the brace that closes it: the name and what follows. -/
def nameBrace? : List Char → Option (List Char × List Char)
  | [] => none
  | c :: cs =>
    if isNameStart c then
      match cs.dropWhile isNamePart with
      | '}' :: rest => some (c :: cs.takeWhile isNamePart, rest)
      | _ => none
    else none

/-- The token at the head of the text, with the number of its bytes and the
text after it. All characters of a token take one byte. -/
def atHead? : List Char → Option (TokenKind × Nat × List Char)
  | '$' :: '{' :: '{' :: '}' :: '}' :: rest => some (.content, 5, rest)
  | '$' :: '{' :: '}' :: rest => some (.content, 3, rest)
  | '}' :: '}' :: rest => some (.wrapperEnd, 2, rest)
  | '$' :: '{' :: '{' :: cs =>
    (nameBrace? cs).map fun (name, rest) =>
      (.wrapperStart (String.ofList name), name.length + 4, rest)
  | '$' :: '{' :: cs =>
    (nameBrace? cs).map fun (name, rest) =>
      (.plain (String.ofList name), name.length + 3, rest)
  | _ => none

theorem length_lt_of_nameBrace? {cs name rest : List Char} (h : nameBrace? cs = some (name, rest)) :
    rest.length < cs.length := by
  cases cs with
  | nil => simp [nameBrace?] at h
  | cons c cs =>
    simp only [nameBrace?] at h
    split at h
    · split at h
      · next hd =>
        have hle := (List.dropWhile_suffix isNamePart : cs.dropWhile isNamePart <:+ cs).length_le
        cases h
        rw [hd] at hle
        simp only [List.length_cons] at hle ⊢
        omega
      · simp at h
    · simp at h

/-- A token is not empty. -/
theorem length_lt_of_atHead? {cs rest : List Char} {kind : TokenKind} {size : Nat}
    (h : atHead? cs = some (kind, size, rest)) : rest.length < cs.length := by
  unfold atHead? at h
  split at h
  · cases h; simp only [List.length_cons]; omega
  · cases h; simp only [List.length_cons]; omega
  · cases h; simp only [List.length_cons]; omega
  · obtain ⟨⟨name, tail⟩, hn, he⟩ := Option.map_eq_some_iff.1 h
    cases he
    have := length_lt_of_nameBrace? hn
    simp only [List.length_cons]; omega
  · obtain ⟨⟨name, tail⟩, hn, he⟩ := Option.map_eq_some_iff.1 h
    cases he
    have := length_lt_of_nameBrace? hn
    simp only [List.length_cons]; omega
  · cases h

end Token

/-- The pieces of the text that starts at byte `offset` of a source. -/
def piecesFrom (offset : Nat) (cs : List Char) : List Piece :=
  match h : Token.atHead? cs with
  | some (kind, size, rest) =>
    have := Token.length_lt_of_atHead? h
    .token { kind := kind, start := offset, stop := offset + size } ::
      piecesFrom (offset + size) rest
  | none =>
    match cs with
    | [] => []
    | c :: rest => .text c :: piecesFrom (offset + c.utf8Size) rest
termination_by cs.length

/-- The pieces of a source, in order. -/
def pieces (source : String) : List Piece := piecesFrom 0 source.toList

/-- The token that a piece holds. -/
def Piece.token? : Piece → Option Token
  | text _ => none
  | token t => some t

/-- The tokens of a source, in order. -/
def Token.ofSource (source : String) : List Token := (pieces source).filterMap Piece.token?

end HtmlTemplate
