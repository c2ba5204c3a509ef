import LegBoard.Json.Numeral
import LegBoard.Proofs.Json.Spelling

/-!
# The JSON grammar

A derivation relates a text to the document it holds and to the text behind it,
and takes one token after the other. Blanks may stand wherever two tokens meet,
and a string is its UTF-16 units, so texts that differ in blanks or in how a
character is spelt hold the same document. An escape may name one half of a
surrogate pair alone; whether a string has to be a text is left to its readers.
-/
namespace LegBoard.Json

/-! ## Strings -/

/-- The content of a string, by its UTF-16 units. -/
abbrev Units := List Nat

/-- The one or two units of a character. -/
def unitsOf (c : Char) : Units :=
  if c.toNat < 0x10000 then [c.toNat]
  else [0xD800 + (c.toNat - 0x10000) / 0x400, 0xDC00 + (c.toNat - 0x10000) % 0x400]

/-- The characters that units stand for, if every half of a surrogate pair has its other half. -/
def charsOf? : Units → Option (List Char)
  | [] => some []
  | unit :: units =>
    if isSecondHalf unit then none
    else if isFirstHalf unit then
      match units with
      | [] => none
      | next :: units =>
        if isSecondHalf next then (charsOf? units).map (pairChar unit next :: ·) else none
    else (charsOf? units).map (Char.ofNat unit :: ·)

/-- The text that units stand for, if they stand for one. -/
def textOf? (units : Units) : Option String := (charsOf? units).map String.ofList

/-- What stands between the quotes of a string with these units, and the text behind it. -/
inductive Spelt : Units → List Char → List Char → Prop
  | nil {t : List Char} : Spelt [] t t
  | raw {units : Units} {c : Char} {s t : List Char} (hquote : c ≠ '"') (hslash : c ≠ '\\')
      (hcontrol : isControl c = false) (rest : Spelt units s t) :
      Spelt (unitsOf c ++ units) (c :: s) t
  | short {units : Units} {letter c : Char} {s t : List Char} (h : shortEscape? letter = some c)
      (rest : Spelt units s t) : Spelt (unitsOf c ++ units) ('\\' :: letter :: s) t
  | unit {units : Units} {unit : Nat} {ds s t : List Char} (h : UnitDigits ds unit)
      (rest : Spelt units s t) : Spelt (unit :: units) ('\\' :: 'u' :: (ds ++ s)) t

/-! ## Numbers -/

def AllDigits (cs : List Char) : Prop := ∀ c ∈ cs, isDigit c = true

/-- The digits before the point. A zero stands alone. -/
inductive Whole : List Char → Prop
  | zero : Whole ['0']
  | digits {c : Char} {cs : List Char} (hzero : c ≠ '0') (hdigit : isDigit c = true)
      (hdigits : AllDigits cs) : Whole (c :: cs)

/-- The point and the digits behind it, or nothing. -/
inductive Fraction : List Char → Prop
  | absent : Fraction []
  | present {cs : List Char} (hne : cs ≠ []) (hdigits : AllDigits cs) : Fraction ('.' :: cs)

/-- The letter, a sign if there is one, and digits, or nothing. -/
inductive Exponent : List Char → Prop
  | absent : Exponent []
  | present {letter : Char} {sign cs : List Char} (hletter : letter = 'e' ∨ letter = 'E')
      (hsign : sign = [] ∨ sign = ['+'] ∨ sign = ['-']) (hne : cs ≠ [])
      (hdigits : AllDigits cs) : Exponent (letter :: (sign ++ cs))

/-- A number, of any size. -/
inductive Numeric : List Char → Prop
  | mk {sign whole fraction exponent : List Char} (hsign : sign = [] ∨ sign = ['-'])
      (hwhole : Whole whole) (hfraction : Fraction fraction) (hexponent : Exponent exponent) :
      Numeric (sign ++ (whole ++ (fraction ++ exponent)))

/-! ## Documents -/

/-- What a text holds. A number is kept as it is spelt, the members of an object in order. -/
inductive Document where
  | null
  | boolean (value : Bool)
  | number (spelling : List Char)
  | text (content : Units)
  | list (items : List Document)
  | object (members : List (Units × Document))

/-- Only blanks stand between two places of a text. -/
def Blanks (s t : List Char) : Prop :=
  ∃ blanks : List Char, (∀ c ∈ blanks, Cursor.isBlank c = true) ∧ s = blanks ++ t

/-- What stands before an item of a list or an object: a comma, except before the first. -/
inductive Separator : Bool → List Char → List Char → Prop
  | first {s t : List Char} (h : Blanks s t) : Separator true s t
  | comma {s t u : List Char} (before : Blanks s (',' :: t)) (behind : Blanks t u) :
      Separator false s u

mutual

/-- A text starts with a document, and another one follows. -/
inductive Written : Document → List Char → List Char → Prop
  | null {t : List Char} : Written .null ('n' :: 'u' :: 'l' :: 'l' :: t) t
  | yes {t : List Char} : Written (.boolean true) ('t' :: 'r' :: 'u' :: 'e' :: t) t
  | no {t : List Char} : Written (.boolean false) ('f' :: 'a' :: 'l' :: 's' :: 'e' :: t) t
  | number {cs t : List Char} (h : Numeric cs) : Written (.number cs) (cs ++ t) t
  | text {units : Units} {s t : List Char} (h : Spelt units s ('"' :: t)) :
      Written (.text units) ('"' :: s) t
  | list {ds : List Document} {s t : List Char} (h : Items true ds s (']' :: t)) :
      Written (.list ds) ('[' :: s) t
  | object {ms : List (Units × Document)} {s t : List Char} (h : Members true ms s ('}' :: t)) :
      Written (.object ms) ('{' :: s) t

/-- The items of a list up to its closing bracket. -/
inductive Items : Bool → List Document → List Char → List Char → Prop
  | nil {first : Bool} {s t : List Char} (h : Blanks s t) : Items first [] s t
  | cons {first : Bool} {d : Document} {ds : List Document} {s s₁ s₂ t : List Char}
      (hsep : Separator first s s₁) (hd : Written d s₁ s₂) (rest : Items false ds s₂ t) :
      Items first (d :: ds) s t

/-- The members of an object up to its closing brace. -/
inductive Members : Bool → List (Units × Document) → List Char → List Char → Prop
  | nil {first : Bool} {s t : List Char} (h : Blanks s t) : Members first [] s t
  | cons {first : Bool} {key : Units} {d : Document} {ms : List (Units × Document)}
      {s s₁ s₂ s₃ s₄ s₅ t : List Char} (hsep : Separator first s ('"' :: s₁))
      (hkey : Spelt key s₁ ('"' :: s₂)) (hcolon : Blanks s₂ (':' :: s₃)) (hblanks : Blanks s₃ s₄)
      (hd : Written d s₄ s₅) (rest : Members false ms s₅ t) : Members first ((key, d) :: ms) s t

end

/-- A whole text holds one document, with blanks around it. -/
def Holds (text : String) (d : Document) : Prop :=
  ∃ s t, Blanks text.toList s ∧ Written d s t ∧ Blanks t []

end LegBoard.Json
