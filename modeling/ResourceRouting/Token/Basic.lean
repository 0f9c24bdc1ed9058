import ResourceRouting.Selection.Basic
import ResourceRouting.Text.Quoted
import ResourceRouting.Text.Basic

/-!
# Tokens

The words, signs and literals of which a selection string consists, and how each is spelled.
-/

namespace ResourceRouting

/-- A word or sign with a fixed spelling. -/
inductive Symbol where
  | and
  | or
  | not
  | openParen
  | closeParen
  | equals
  | star
  | property (p : Property)
  deriving DecidableEq, Repr, Inhabited

namespace Symbol

/-- All symbols, in the order in which they are looked for. -/
def all : List Symbol :=
  [.and, .or, .not, .openParen, .closeParen, .equals, .star, .property .interface,
    .property .type, .property .id, .property .group]

def text : Symbol → String
  | .and => "and"
  | .or => "or"
  | .not => "not"
  | .openParen => "("
  | .closeParen => ")"
  | .equals => "="
  | .star => "*"
  | .property p => p.name

def property? : Symbol → Option Property
  | .property p => some p
  | _ => none

def ofText? (text : String) : Option Symbol := all.find? fun s => s.text == text

/-- The symbol at the start of a text, and what follows it. No separator has to follow. -/
def read? (text : List Char) : Option (Symbol × List Char) :=
  all.findSome? fun s => (Text.afterStart? s.text.toList text).map (s, ·)

theorem mem_all (s : Symbol) : s ∈ all := by
  cases s with
  | property p => cases p <;> decide
  | _ => decide

theorem text_ne_nil (s : Symbol) : s.text.toList ≠ [] := by
  cases s with
  | property p => cases p <;> decide
  | _ => decide

/-- What is read at the start of a text is the spelling of the symbol. -/
theorem eq_append_of_read? {text rest : List Char} {s : Symbol} (h : read? text = some (s, rest)) :
    text = s.text.toList ++ rest := by
  obtain ⟨_, s', _, _, hs, _⟩ := List.findSome?_eq_some_iff.1 h
  simp only [Option.map_eq_some_iff, Prod.mk.injEq] at hs
  obtain ⟨_, hrest, rfl, rfl⟩ := hs
  exact Text.afterStart?_eq_some_iff.1 hrest

end Symbol

/-- One token of a selection string. -/
inductive Token where
  | symbol (s : Symbol)
  /-- A quoted text, by its value. -/
  | literal (value : String)
  deriving DecidableEq, Repr, Inhabited

namespace Token

def text : Token → String
  | .symbol s => s.text
  | .literal value => Text.Quoted.ofString value

/-- The token at the start of a text, and what follows it. -/
def read? (text : List Char) : Option (Token × List Char) :=
  match Symbol.read? text with
  | some (s, rest) => some (.symbol s, rest)
  | none => (Text.Quoted.read? text).map fun (value, rest) => (.literal (String.ofList value), rest)

theorem length_read? {text rest : List Char} {t : Token} (h : read? text = some (t, rest)) :
    rest.length < text.length := by
  unfold read? at h
  split at h
  · rename_i s rest' hs
    simp only [Option.some.injEq, Prod.mk.injEq] at h
    obtain ⟨_, rfl⟩ := h
    have hpos := List.length_pos_iff.2 s.text_ne_nil
    have := congrArg List.length (Symbol.eq_append_of_read? hs)
    simp only [List.length_append] at this
    omega
  · simp only [Option.map_eq_some_iff, Prod.mk.injEq] at h
    obtain ⟨⟨value, rest'⟩, hread, _, rfl⟩ := h
    exact Text.Quoted.length_read? hread

end Token

end ResourceRouting
