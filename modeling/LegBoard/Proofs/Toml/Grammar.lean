import LegBoard.Proofs.Toml.Rules
import LegBoard.Toml.Read

/-!
# The TOML grammar

Which characters spell what: strings in their four forms, numbers, dates, keys, values and whole
documents. Everything is said of the characters alone, not of how they are read, and within bounds
that may be chosen at will. Of two statements that contradict each other nothing is said here.
-/
namespace LegBoard.Toml

/-- What a document may not exceed. -/
structure Bounds where
  /-- How deep arrays and inline tables nest, and how many parts a key has. -/
  depth : Nat
  /-- Integers are less than this, and those below zero at least the half of it. -/
  integers : Nat
  /-- Whether numbers may be beyond their range after all. They are `Value.oversized` then. -/
  oversized : Bool := false

/-- What the documents that are read may not exceed, with or without numbers beyond their range. -/
def reading (oversized : Bool) : Bounds where
  depth := greatestDepth
  integers := integerBound
  oversized := oversized

def Spaces (s : List Char) : Prop := ∀ c ∈ s, isSpace c = true

inductive LineEnd : List Char → Prop
  | feed : LineEnd ['\n']
  | both : LineEnd ['\r', '\n']

/-- A comment up to the end of its line, or none. -/
inductive Comment : List Char → Prop
  | absent : Comment []
  | present {s : List Char} (h : ∀ c ∈ s, isPlain c = true) : Comment ('#' :: s)

/-- Blanks, line ends and comments. -/
inductive Free : List Char → Prop
  | nil : Free []
  | space {c : Char} {s : List Char} (hc : isSpace c = true) (h : Free s) : Free (c :: s)
  | line {comment e s : List Char} (hcomment : Comment comment) (he : LineEnd e) (h : Free s) :
      Free (comment ++ (e ++ s))

/-! ## Strings -/

/-- The letters that stand for one character behind a backslash. -/
def shortEscapes : List (Char × Char) :=
  [('b', '\x08'), ('t', '\t'), ('n', '\n'), ('f', '\x0c'), ('r', '\r'), ('e', '\x1b'), ('"', '"'),
    ('\\', '\\')]

/-- What stands behind the backslash of an escape for a character. -/
inductive Escape (c : Char) : List Char → Prop
  | short {letter : Char} (h : (letter, c) ∈ shortEscapes) : Escape c [letter]
  | two {ds : List Char} (hlen : ds.length = 2) (h : Text.Hex.number? ds = some c.toNat) :
      Escape c ('x' :: ds)
  | four {ds : List Char} (hlen : ds.length = 4) (h : Text.Hex.number? ds = some c.toNat) :
      Escape c ('u' :: ds)
  | eight {ds : List Char} (hlen : ds.length = 8) (h : Text.Hex.number? ds = some c.toNat) :
      Escape c ('U' :: ds)

/-- What stands between double quotes on one line for a text. -/
inductive BasicInside : List Char → List Char → Prop
  | nil : BasicInside [] []
  | plain {c : Char} {cs s : List Char} (hc : isPlain c = true) (hquote : c ≠ '"')
      (hslash : c ≠ '\\') (h : BasicInside cs s) : BasicInside (c :: cs) (c :: s)
  | escape {c : Char} {cs e s : List Char} (he : Escape c e) (h : BasicInside cs s) :
      BasicInside (c :: cs) ('\\' :: (e ++ s))

/-- What stands between single quotes on one line. -/
def LiteralInside (s : List Char) : Prop := ∀ c ∈ s, isPlain c = true ∧ c ≠ '\''

/-- Blanks and line ends. -/
inductive BlankLines : List Char → Prop
  | nil : BlankLines []
  | space {c : Char} {s : List Char} (hc : isSpace c = true) (h : BlankLines s) :
      BlankLines (c :: s)
  | line {e s : List Char} (he : LineEnd e) (h : BlankLines s) : BlankLines (e ++ s)

/-- No blank and no line end comes next. -/
def NoBlank (s : List Char) : Prop :=
  ∀ c ∈ s.head?, isSpace c = false ∧ c ≠ '\n' ∧ c ≠ '\r'

/-- What stands between triple marks for a text, before the marks at its end. In double quotes
there are escapes, and a backslash before a line end joins the lines. -/
inductive LinesInside (mark : Char) : List Char → List Char → Prop
  | nil : LinesInside mark [] []
  | plain {c : Char} {cs s : List Char} (hc : isPlain c = true) (hmark : c ≠ mark)
      (hslash : ¬(c = '\\' ∧ mark = '"')) (h : LinesInside mark cs s) :
      LinesInside mark (c :: cs) (c :: s)
  | line {cs e s : List Char} (he : LineEnd e) (h : LinesInside mark cs s) :
      LinesInside mark (e ++ cs) (e ++ s)
  | marks {n : Nat} {c : Char} {cs s : List Char} (hn : n ≤ 2) (hc : c ≠ mark)
      (h : LinesInside mark cs (c :: s)) :
      LinesInside mark (List.replicate n mark ++ cs) (List.replicate n mark ++ c :: s)
  | escape {c : Char} {cs e s : List Char} (hmark : mark = '"') (he : Escape c e)
      (h : LinesInside mark cs s) : LinesInside mark (c :: cs) ('\\' :: (e ++ s))
  | joined {cs b e l s : List Char} (hmark : mark = '"') (hb : Spaces b) (he : LineEnd e)
      (hl : BlankLines l) (hs : NoBlank s) (h : LinesInside mark cs s) :
      LinesInside mark cs ('\\' :: (b ++ (e ++ (l ++ s))))

/-- A string for a text. A line end right behind triple marks does not belong to it, and up to two
marks may stand before those that close it. -/
inductive StringText : String → List Char → Prop
  | basic {cs s : List Char} (h : BasicInside cs s) :
      StringText (String.ofList cs) ('"' :: (s ++ ['"']))
  | literal {s : List Char} (h : LiteralInside s) :
      StringText (String.ofList s) ('\'' :: (s ++ ['\'']))
  | lines {mark : Char} {n : Nat} {cs s : List Char} (hmark : mark = '"' ∨ mark = '\'')
      (hn : n ≤ 2) (hs : ∀ c ∈ s.head?, c ≠ '\n' ∧ c ≠ '\r') (h : LinesInside mark cs s) :
      StringText (String.ofList (cs ++ List.replicate n mark))
        (List.replicate 3 mark ++ (s ++ List.replicate (n + 3) mark))
  | linesBelow {mark : Char} {n : Nat} {cs e s : List Char} (hmark : mark = '"' ∨ mark = '\'')
      (hn : n ≤ 2) (he : LineEnd e) (h : LinesInside mark cs s) :
      StringText (String.ofList (cs ++ List.replicate n mark))
        (List.replicate 3 mark ++ (e ++ (s ++ List.replicate (n + 3) mark)))

/-! ## Numbers -/

/-- Digits, with an underscore allowed between two of them. -/
inductive Run (digit : Char → Bool) : List Char → Prop
  | one {c : Char} (hc : digit c = true) : Run digit [c]
  | digit {c : Char} {cs : List Char} (hc : digit c = true) (h : Run digit cs) :
      Run digit (c :: cs)
  | underscore {c : Char} {cs : List Char} (hc : digit c = true) (h : Run digit cs) :
      Run digit (c :: '_' :: cs)

def Sign (s : List Char) : Prop := s = [] ∨ s = ['+'] ∨ s = ['-']

/-- A decimal number without a sign. Only zero starts with a zero. -/
inductive DecimalText : List Char → Prop
  | zero : DecimalText ['0']
  | run {c : Char} {cs : List Char} (hzero : c ≠ '0') (h : Run isDigit (c :: cs)) :
      DecimalText (c :: cs)

/-- An integer, with or without a sign in base ten, or without one in another base. -/
inductive IntegerText (bound : Nat) : List Char → Prop
  | decimal {sign cs : List Char} (hsign : sign = [] ∨ sign = ['+']) (h : DecimalText cs)
      (hbound : digitsValue 10 cs < bound) : IntegerText bound (sign ++ cs)
  | negative {cs : List Char} (h : DecimalText cs) (hbound : 2 * digitsValue 10 cs ≤ bound) :
      IntegerText bound ('-' :: cs)
  | hexadecimal {cs : List Char} (h : Run isHex cs) (hbound : digitsValue 16 cs < bound) :
      IntegerText bound ('0' :: 'x' :: cs)
  | octal {cs : List Char} (h : Run isOctal cs) (hbound : digitsValue 8 cs < bound) :
      IntegerText bound ('0' :: 'o' :: cs)
  | binary {cs : List Char} (h : Run isBinary cs) (hbound : digitsValue 2 cs < bound) :
      IntegerText bound ('0' :: 'b' :: cs)

/-- A point and digits, or nothing. The first list is that of the digits. -/
inductive FractionText : List Char → List Char → Prop
  | absent : FractionText [] []
  | present {cs : List Char} (h : Run isDigit cs) : FractionText cs ('.' :: cs)

/-- A letter, a sign and digits, or nothing, and the power of ten that they name. -/
inductive ExponentText : Int → List Char → Prop
  | absent : ExponentText 0 []
  | up {mark : Char} {sign cs : List Char} (hmark : isExponentMark mark = true)
      (hsign : sign = [] ∨ sign = ['+']) (h : Run isDigit cs) :
      ExponentText (digitsValue 10 cs) (mark :: (sign ++ cs))
  | down {mark : Char} {cs : List Char} (hmark : isExponentMark mark = true)
      (h : Run isDigit cs) : ExponentText (-(digitsValue 10 cs : Int)) (mark :: '-' :: cs)

/-- Whether `digits · 10^power` is less than what is just too much for 64 bits: the number half way
between the greatest float and the power of two that comes next. -/
def InRange (digits : Nat) (power : Int) : Prop :=
  digits * Nat.pow 10 power.toNat <
    (Nat.pow 2 1024 - Nat.pow 2 970) * Nat.pow 10 (-power).toNat

/-- Digits with a fraction, an exponent or both, and the number `digits · 10^power` they name. -/
inductive RealText : Nat → Int → List Char → Prop
  | mk {whole digits fraction exponent : List Char} {power : Int} (hwhole : DecimalText whole)
      (hfraction : FractionText digits fraction) (hexponent : ExponentText power exponent)
      (hne : fraction ++ exponent ≠ []) :
      RealText (digitsValue 10 (whole ++ digits))
        (power - ((digits.filter isDigit).length : Int)) (whole ++ (fraction ++ exponent))

inductive FloatText : List Char → Prop
  | infinite {sign : List Char} (hsign : Sign sign) : FloatText (sign ++ ['i', 'n', 'f'])
  | undefined {sign : List Char} (hsign : Sign sign) : FloatText (sign ++ ['n', 'a', 'n'])
  | number {sign s : List Char} {digits : Nat} {power : Int} (hsign : Sign sign)
      (h : RealText digits power s) (hrange : InRange digits power) : FloatText (sign ++ s)

/-! ## Dates and times -/

inductive TwoDigits : Nat → List Char → Prop
  | mk {a b : Char} (ha : isDigit a = true) (hb : isDigit b = true) :
      TwoDigits (digitsValue 10 [a, b]) [a, b]

/-- A date of the calendar. -/
inductive DateText : List Char → Prop
  | mk {century year month day : Nat} {a b c d : List Char} (hcentury : TwoDigits century a)
      (hyear : TwoDigits year b) (hmonth : TwoDigits month c) (hday : TwoDigits day d)
      (hmonths : 1 ≤ month ∧ month ≤ 12)
      (hdays : 1 ≤ day ∧ day ≤ daysOf (100 * century + year) month) :
      DateText (a ++ (b ++ '-' :: (c ++ '-' :: d)))

inductive ClockText : List Char → Prop
  | mk {hour minute : Nat} {a b : List Char} (hhour : TwoDigits hour a)
      (hminute : TwoDigits minute b) (hhours : hour ≤ 23) (hminutes : minute ≤ 59) :
      ClockText (a ++ ':' :: b)

/-- The seconds of a time of day, which may have a fraction or be left out. -/
inductive SecondsText : List Char → Prop
  | absent : SecondsText []
  | whole {second : Nat} {a : List Char} (h : TwoDigits second a) (hsecond : second ≤ 60) :
      SecondsText (':' :: a)
  | fraction {second : Nat} {a : List Char} {c : Char} {cs : List Char} (h : TwoDigits second a)
      (hsecond : second ≤ 60) (hcs : ∀ d ∈ c :: cs, isDigit d = true) :
      SecondsText (':' :: (a ++ '.' :: c :: cs))

/-- How far a time is from universal time, or nothing. -/
inductive OffsetText : List Char → Prop
  | absent : OffsetText []
  | none {c : Char} (hc : c = 'Z' ∨ c = 'z') : OffsetText [c]
  | hours {c : Char} {s : List Char} (hc : c = '+' ∨ c = '-') (h : ClockText s) :
      OffsetText (c :: s)

inductive DateTimeText : List Char → Prop
  | date {d : List Char} (hd : DateText d) : DateTimeText d
  | time {t s : List Char} (ht : ClockText t) (hs : SecondsText s) : DateTimeText (t ++ s)
  | both {d t s o : List Char} {mark : Char} (hd : DateText d)
      (hmark : mark = 'T' ∨ mark = 't' ∨ mark = ' ') (ht : ClockText t) (hs : SecondsText s)
      (ho : OffsetText o) : DateTimeText (d ++ mark :: (t ++ (s ++ o)))

/-- A value that is written without quotes or brackets. -/
inductive ScalarText (bounds : Bounds) : Value → List Char → Prop
  | yes : ScalarText bounds .boolean ['t', 'r', 'u', 'e']
  | no : ScalarText bounds .boolean ['f', 'a', 'l', 's', 'e']
  | integer {s : List Char} (h : IntegerText bounds.integers s) : ScalarText bounds .integer s
  | largeInteger {bound : Nat} {s : List Char} (hallowed : bounds.oversized = true)
      (h : IntegerText bound s) (hlarge : ¬IntegerText bounds.integers s) :
      ScalarText bounds .oversized s
  | float {s : List Char} (h : FloatText s) : ScalarText bounds .float s
  | largeFloat {sign s : List Char} {digits : Nat} {power : Int}
      (hallowed : bounds.oversized = true) (hsign : Sign sign) (h : RealText digits power s)
      (hlarge : ¬InRange digits power) : ScalarText bounds .oversized (sign ++ s)
  | dateTime {s : List Char} (h : DateTimeText s) : ScalarText bounds .dateTime s

/-! ## Keys and values -/

/-- One part of a key, bare or as a string of one line. -/
inductive KeyPart : String → List Char → Prop
  | bare {c : Char} {cs : List Char} (h : ∀ d ∈ c :: cs, isBare d = true) :
      KeyPart (String.ofList (c :: cs)) (c :: cs)
  | basic {cs s : List Char} (h : BasicInside cs s) :
      KeyPart (String.ofList cs) ('"' :: (s ++ ['"']))
  | literal {s : List Char} (h : LiteralInside s) :
      KeyPart (String.ofList s) ('\'' :: (s ++ ['\'']))

/-- A key, its parts with dots between them. -/
inductive KeyText : Key → List Char → Prop
  | last {name : String} {s : List Char} (h : KeyPart name s) : KeyText ⟨[], name⟩ s
  | dotted {parent name : String} {parents : List String} {s b b' t : List Char}
      (hpart : KeyPart parent s) (hb : Spaces b) (hb' : Spaces b')
      (h : KeyText ⟨parents, name⟩ t) :
      KeyText ⟨parent :: parents, name⟩ (s ++ (b ++ '.' :: (b' ++ t)))

/-- A key with its value, where the values are those of a given kind. -/
inductive PairText (bounds : Bounds) (value : Value → List Char → Prop) :
    Key × Value → List Char → Prop
  | mk {key : Key} {v : Value} {s b b' t : List Char} (hkey : KeyText key s)
      (hlimit : key.parents.length < bounds.depth) (hb : Spaces b) (hb' : Spaces b')
      (hv : value v t) :
      PairText bounds value (key, v) (s ++ (b ++ '=' :: (b' ++ t)))

/-- Items up to a closing bracket, with commas between them and one allowed behind the last. -/
inductive ItemsText {α : Type} (close : Char) (item : α → List Char → Prop) :
    List α → List Char → Prop
  | nil {f : List Char} (hf : Free f) : ItemsText close item [] (f ++ [close])
  | last {a : α} {f s f' : List Char} (hf : Free f) (ha : item a s) (hf' : Free f') :
      ItemsText close item [a] (f ++ (s ++ (f' ++ [close])))
  | cons {a : α} {as : List α} {f s f' t : List Char} (hf : Free f) (ha : item a s)
      (hf' : Free f') (h : ItemsText close item as t) :
      ItemsText close item (a :: as) (f ++ (s ++ (f' ++ ',' :: t)))

/-- A value that holds no other values. -/
inductive PlainText (bounds : Bounds) : Value → List Char → Prop
  | text {t : String} {s : List Char} (h : StringText t s) : PlainText bounds (.text t) s
  | scalar {v : Value} {s : List Char} (h : ScalarText bounds v s) : PlainText bounds v s

/-- A value, where those in an array or an inline table are of a given kind. -/
inductive ValueOver (bounds : Bounds) (inner : Value → List Char → Prop) :
    Value → List Char → Prop
  | plain {v : Value} {s : List Char} (h : PlainText bounds v s) : ValueOver bounds inner v s
  | array {vs : List Value} {s : List Char} (h : ItemsText ']' inner vs s) :
      ValueOver bounds inner (.array vs) ('[' :: s)
  | table {pairs : List (Key × Value)} {entries : List (String × Value)} {s : List Char}
      (h : ItemsText '}' (PairText bounds inner) pairs s)
      (hentries : GainsAll pairs (.inlined, []) (.inlined, entries)) :
      ValueOver bounds inner (.table .inlined entries) ('{' :: s)

/-- A value in which arrays and inline tables nest at most so deep. -/
def ValueText (bounds : Bounds) : Nat → Value → List Char → Prop
  | 0 => PlainText bounds
  | depth + 1 => ValueOver bounds (ValueText bounds depth)

/-! ## Documents -/

/-- What a line says, if it says anything. A value may have line ends in it. -/
inductive LineText (bounds : Bounds) : Option Statement → List Char → Prop
  | blank : LineText bounds none []
  | pair {key : Key} {v : Value} {s : List Char}
      (h : PairText bounds (ValueText bounds bounds.depth) (key, v) s) :
      LineText bounds (some (.pair key v)) s
  | header {key : Key} {b s b' : List Char} (hb : Spaces b) (hkey : KeyText key s)
      (hlimit : key.parents.length < bounds.depth) (hb' : Spaces b') :
      LineText bounds (some (.header key false)) ('[' :: (b ++ (s ++ (b' ++ [']']))))
  | repeated {key : Key} {b s b' : List Char} (hb : Spaces b) (hkey : KeyText key s)
      (hlimit : key.parents.length < bounds.depth) (hb' : Spaces b') :
      LineText bounds (some (.header key true)) ('[' :: '[' :: (b ++ (s ++ (b' ++ [']', ']']))))

/-- The statements of a document, one line after the other. -/
inductive DocumentText (bounds : Bounds) : List Statement → List Char → Prop
  | last {statement : Option Statement} {b s b' comment : List Char} (hb : Spaces b)
      (hline : LineText bounds statement s) (hb' : Spaces b') (hcomment : Comment comment) :
      DocumentText bounds statement.toList (b ++ (s ++ (b' ++ comment)))
  | line {statement : Option Statement} {statements : List Statement}
      {b s b' comment e t : List Char} (hb : Spaces b) (hline : LineText bounds statement s)
      (hb' : Spaces b') (hcomment : Comment comment) (he : LineEnd e)
      (h : DocumentText bounds statements t) :
      DocumentText bounds (statement.toList ++ statements)
        (b ++ (s ++ (b' ++ (comment ++ (e ++ t)))))

/-- A text that makes statements, with or without a byte order mark in front. -/
def States (bounds : Bounds) (text : String) (statements : List Statement) : Prop :=
  ∃ s, DocumentText bounds statements s ∧ (text.toList = s ∨ text.toList = '\uFEFF' :: s)

end LegBoard.Toml
