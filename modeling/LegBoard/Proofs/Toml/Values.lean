import LegBoard.Proofs.Toml.Scalars
import LegBoard.Proofs.Toml.Strings

/-!
# Reading keys and values

A key and a value that the grammar spells are taken off the text. Where values stand inside values,
the reader of one level is right if that of the level below is.
-/
namespace LegBoard.Toml

open LegBoard.Text (dropWhile_append_stop takeWhile_append_stop head_append)

variable {oversized : Bool}

/-! ## Between the tokens -/

theorem skipSpace_append {b t : List Char} (hb : Spaces b) (ht : ∀ c ∈ t.head?, isSpace c = false) :
    skipSpace (b ++ t) = t := dropWhile_append_stop hb ht

/-- A token comes next: neither a blank nor the end of a line nor a comment. -/
def Token (t : List Char) : Prop :=
  ∀ c ∈ t.head?, isSpace c = false ∧ c ≠ '\n' ∧ c ≠ '\r' ∧ c ≠ '#'

theorem skipFree_token {t : List Char} (ht : Token t) : skipFree false t = t := by
  cases t with
  | nil => rfl
  | cons c t =>
    obtain ⟨hspace, hfeed, hreturn, hmark⟩ := ht c rfl
    rw [skipFree.eq_def]
    simp [hspace, hfeed, hreturn, hmark]

theorem skipFree_lineEnd {e : List Char} (he : LineEnd e) (inComment : Bool) (t : List Char) :
    skipFree inComment (e ++ t) = skipFree false t := by
  cases he with
  | feed =>
    rw [skipFree.eq_def]
    cases inComment <;> rfl
  | both =>
    rw [skipFree.eq_def]
    rfl

/-- The characters of a comment are passed up to the end of the line. -/
theorem skipFree_plain {s : List Char} (hs : ∀ c ∈ s, isPlain c = true) (t : List Char) :
    skipFree true (s ++ t) = skipFree true t := by
  induction s with
  | nil => rfl
  | cons c s ih =>
    obtain ⟨hc, hs⟩ := List.forall_mem_cons.mp hs
    have hreturn : c ≠ '\r' := by
      rintro rfl
      cases hc
    rw [List.cons_append, skipFree.eq_def]
    simp [hc, hreturn, ih hs]

theorem skipFree_comment {comment e : List Char} (h : Comment comment) (he : LineEnd e)
    (t : List Char) : skipFree false (comment ++ (e ++ t)) = skipFree false t := by
  cases h with
  | absent => exact skipFree_lineEnd he false t
  | @present s hs =>
    have hstep : skipFree false ('#' :: (s ++ (e ++ t))) = skipFree true (s ++ (e ++ t)) := by
      rw [skipFree.eq_def]
      rfl
    rw [List.cons_append, hstep, skipFree_plain hs, skipFree_lineEnd he]

theorem skipFree_append {f t : List Char} (hf : Free f) (ht : Token t) :
    skipFree false (f ++ t) = t := by
  induction hf with
  | nil => exact skipFree_token ht
  | @space c s hc _ ih =>
    have hreturn : c ≠ '\r' := by
      rintro rfl
      cases hc
    rw [List.cons_append, skipFree.eq_def]
    simp [hreturn, hc, ih]
  | line hcomment he _ ih =>
    rw [List.append_assoc, List.append_assoc, skipFree_comment hcomment he, ih]

/-- A value may end before blanks, line ends and comments with a comma or a bracket behind. -/
theorem Free.endsValue {f : List Char} (hf : Free f) {c : Char} (hc : c ∈ [',', ']', '}'])
    (t : List Char) : EndsValue (f ++ c :: t) := by
  induction hf with
  | nil =>
    refine ⟨[], c :: t, List.forall_mem_nil _, rfl, ?_⟩
    rintro d ⟨⟩
    simp only [List.mem_cons] at hc ⊢
    tauto
  | space hspace _ ih =>
    obtain ⟨b, r, hb, heq, hr⟩ := ih
    refine ⟨_ :: b, r, List.forall_mem_cons.mpr ⟨hspace, hb⟩, ?_, hr⟩
    rw [List.cons_append, heq, List.cons_append]
  | @line comment e s hcomment he _ ih =>
    refine ⟨[], comment ++ (e ++ s) ++ c :: t, List.forall_mem_nil _, rfl, ?_⟩
    cases hcomment with
    | absent =>
      cases he with
      | feed => rintro d ⟨⟩; decide
      | both => rintro d ⟨⟩; decide
    | present => rintro d ⟨⟩; decide

/-! ## Keys -/

/-- A character that a key may start with. -/
def StartsKey (c : Char) : Prop := isBare c = true ∨ c = '"' ∨ c = '\''

theorem KeyPart.head {name : String} {s : List Char} (h : KeyPart name s) :
    ∃ c s', s = c :: s' ∧ StartsKey c := by
  cases h with
  | bare h => exact ⟨_, _, rfl, .inl (h _ List.mem_cons_self)⟩
  | basic => exact ⟨_, _, rfl, .inr (.inl rfl)⟩
  | literal => exact ⟨_, _, rfl, .inr (.inr rfl)⟩

theorem KeyText.head {key : Key} {s : List Char} (h : KeyText key s) :
    ∃ c s', s = c :: s' ∧ StartsKey c := by
  cases h with
  | last h => exact h.head
  | dotted hpart =>
    obtain ⟨c, s', rfl, hc⟩ := hpart.head
    exact ⟨c, _, rfl, hc⟩

/-- What starts a key is none of the marks that stand around it. -/
theorem StartsKey.ne {c : Char} (h : StartsKey c) :
    isSpace c = false ∧
      c ∉ ['\n', '\r', '#', '[', ']', '}', ',', '.', '=', '\uFEFF'] := by
  have hbare : ∀ d, isBare d = false → d ≠ '"' → d ≠ '\'' → c ≠ d := by
    rintro d hd hquote hquote' rfl
    rcases h with h | h | h
    · rw [h] at hd
      cases hd
    · exact hquote h
    · exact hquote' h
  constructor
  · rw [Bool.eq_false_iff]
    intro hspace
    simp only [isSpace, Bool.or_eq_true, beq_iff_eq] at hspace
    rcases hspace with rfl | rfl
    · exact hbare ' ' (by decide) (by decide) (by decide) rfl
    · exact hbare '\t' (by decide) (by decide) (by decide) rfl
  · simp only [List.mem_cons, List.not_mem_nil, or_false, not_or]
    refine ⟨?_, ?_, ?_, ?_, ?_, ?_, ?_, ?_, ?_, ?_⟩ <;>
      exact hbare _ (by decide) (by decide) (by decide)

theorem keyPart?_append {name : String} {s : List Char} (h : KeyPart name s) {t : List Char}
    (ht : ∀ c ∈ t.head?, isBare c = false) : keyPart? (s ++ t) = some (name, t) := by
  cases h with
  | @bare d cs h =>
    have hquotes : d ≠ '"' ∧ d ≠ '\'' := by
      have hd := h d List.mem_cons_self
      constructor <;> (rintro rfl; cases hd)
    rw [keyPart?.eq_def]
    split
    · next heq => exact absurd (List.cons.inj heq).1 hquotes.1
    · next heq => exact absurd (List.cons.inj heq).1 hquotes.2
    · rw [takeWhile_append_stop h ht, dropWhile_append_stop h ht]
      rfl
  | @basic cs s h =>
    have hbasic := basic_inside h t
    rw [List.cons_append, List.append_assoc]
    exact hbasic
  | @literal s h =>
    have hliteral := literal_inside h t
    rw [List.cons_append, List.append_assoc]
    exact hliteral

/-- A key ends here: neither a blank nor a dot nor more of the key comes next. -/
def EndsKey (t : List Char) : Prop := ∀ c ∈ t.head?, c = '=' ∨ c = ']'

theorem EndsKey.stops {t : List Char} (ht : EndsKey t) :
    ∀ c ∈ t.head?, isSpace c = false ∧ c ≠ '.' := by
  intro c hc
  rcases ht c hc with rfl | rfl <;> decide

theorem not_bare_of_spaces {b : List Char} (hb : Spaces b) : ∀ c ∈ b.head?, isBare c = false := by
  intro c hc
  have hspace : isSpace c = true := hb c (List.mem_of_mem_head? hc)
  simp only [isSpace, Bool.or_eq_true, beq_iff_eq] at hspace
  rcases hspace with rfl | rfl <;> decide

theorem keyFrom_append {key : Key} {s : List Char} (h : KeyText key s) {b t : List Char}
    (hb : Spaces b) (ht : EndsKey t) : ∀ {clock : List Char}, s.length ≤ clock.length →
      keyFrom clock (s ++ (b ++ t)) = some (key, t) := by
  induction h with
  | @last name s hpart =>
    obtain ⟨c, s', hs, -⟩ := hpart.head
    rintro (_ | ⟨tick, clock⟩) hclock
    · rw [hs] at hclock
      cases hclock
    · have hstop : ∀ c ∈ (b ++ t).head?, isBare c = false := by
        apply head_append (not_bare_of_spaces hb)
        intro c hc
        rcases ht c hc with rfl | rfl <;> decide
      rw [keyFrom, keyPart?_append hpart hstop]
      simp only [Option.bind_eq_bind, Option.bind_some,
        skipSpace_append hb fun c hc => (ht.stops c hc).1]
      split
      · exact absurd rfl (ht.stops '.' rfl).2
      · rfl
  | @dotted parent name parents s b₁ b₂ s₂ hpart hb₁ hb₂ hkey ih =>
    obtain ⟨c, s', hs, -⟩ := hpart.head
    obtain ⟨d, s₃, hs₂, hd⟩ := hkey.head
    rintro (_ | ⟨tick, clock⟩) hclock
    · rw [hs] at hclock
      cases hclock
    · have hdot : ∀ c ∈ ('.' :: (b₂ ++ (s₂ ++ (b ++ t)))).head?, isSpace c = false := by
        rintro c ⟨⟩
        decide
      have hstop : ∀ c ∈ (b₁ ++ '.' :: (b₂ ++ (s₂ ++ (b ++ t)))).head?, isBare c = false := by
        apply head_append (not_bare_of_spaces hb₁)
        rintro c ⟨⟩
        decide
      have hnext : ∀ c ∈ (s₂ ++ (b ++ t)).head?, isSpace c = false := by
        rw [hs₂]
        rintro c ⟨⟩
        exact hd.ne.1
      have hclock' : s₂.length ≤ clock.length := by
        rw [hs] at hclock
        simp only [List.length_append, List.length_cons] at hclock
        omega
      simp only [List.append_assoc, List.cons_append]
      rw [keyFrom, keyPart?_append hpart hstop]
      simp only [Option.bind_eq_bind, Option.bind_some, skipSpace_append hb₁ hdot,
        skipSpace_append hb₂ hnext, ih hclock']

theorem key?_append {key : Key} {s b t : List Char} (h : KeyText key s)
    (hlimit : key.parents.length < greatestDepth) (hb : Spaces b) (ht : EndsKey t) :
    key? (s ++ (b ++ t)) = some (key, t) := by
  have hlength : s.length ≤ (s ++ (b ++ t)).length := by
    rw [List.length_append]
    omega
  simp only [key?, keyFrom_append h hb ht hlength, Option.bind_eq_bind, Option.bind_some]
  exact if_pos hlimit

/-! ## Items -/

/-- What an item may start with: not with what may stand before it or behind the last one. -/
def StartsItem (s : List Char) : Prop :=
  ∃ c s', s = c :: s' ∧ isSpace c = false ∧ c ∉ ['\n', '\r', '#', ',', ']', '}']

theorem StartsItem.token {s : List Char} (h : StartsItem s) (t : List Char) : Token (s ++ t) := by
  obtain ⟨c, s', rfl, hspace, hmarks⟩ := h
  rintro d ⟨⟩
  simp only [List.mem_cons, not_or] at hmarks
  exact ⟨hspace, hmarks.1, hmarks.2.1, hmarks.2.2.1⟩

theorem KeyText.startsItem {key : Key} {s : List Char} (h : KeyText key s) (t : List Char) :
    StartsItem (s ++ t) := by
  obtain ⟨c, s', rfl, hc⟩ := h.head
  obtain ⟨hspace, hmarks⟩ := hc.ne
  refine ⟨c, s' ++ t, rfl, hspace, ?_⟩
  simp only [List.mem_cons, not_or] at hmarks ⊢
  tauto

/-- What is spelt as an item starts like one, and is read to its end where a value may end. -/
structure ReadsItems {α : Type} (item : α → List Char → Prop)
    (read : List Char → Option (α × List Char)) : Prop where
  starts {a : α} {s : List Char} (h : item a s) : StartsItem s
  reads {a : α} {s : List Char} (h : item a s) {t : List Char} (ht : EndsValue t) :
    read (s ++ t) = some (a, t)

section Items

variable {α : Type} {close : Char} {item : α → List Char → Prop}
  {read : List Char → Option (α × List Char)}

/-- A bracket or a comma is a token. -/
theorem token_of_mem {c : Char} (hc : c ∈ [',', ']', '}']) (t : List Char) : Token (c :: t) := by
  rintro d ⟨⟩
  simp only [List.mem_cons, List.not_mem_nil, or_false] at hc
  rcases hc with rfl | rfl | rfl <;> decide

/-- The items up to a closing bracket, if each of them is read to its end. -/
theorem ReadsItems.items (hreads : ReadsItems item read) (hclose : close = ']' ∨ close = '}')
    {as : List α} {s : List Char} (h : ItemsText close item as s) (t : List Char) :
    ∀ {clock : List Char}, s.length ≤ clock.length →
      items? close read clock (s ++ t) = some (as, t) := by
  have hmem : close ∈ [',', ']', '}'] := by rcases hclose with rfl | rfl <;> decide
  have hcomma : ',' ≠ close := by rcases hclose with rfl | rfl <;> decide
  have hopen : ∀ {a s}, item a s → ∃ c s', s = c :: s' ∧ c ≠ close := by
    intro a s ha
    obtain ⟨c, s', rfl, -, hmarks⟩ := hreads.starts ha
    refine ⟨c, s', rfl, ?_⟩
    rcases hclose with rfl | rfl <;> (rintro rfl; exact hmarks (by decide))
  induction h with
  | @nil f hf =>
    rintro (_ | ⟨tick, clock⟩) hclock
    · simp at hclock
    · rw [List.append_assoc, List.singleton_append, items?,
        skipFree_append hf (token_of_mem hmem t)]
      exact if_pos rfl
  | @last a f s f' hf ha hf' =>
    rintro (_ | ⟨tick, clock⟩) hclock
    · simp at hclock
    · have htoken := (hreads.starts ha).token (f' ++ close :: t)
      have hitem := hreads.reads ha (hf'.endsValue hmem t)
      obtain ⟨c, s', rfl, hc⟩ := hopen ha
      simp only [List.append_assoc, List.singleton_append]
      rw [items?, skipFree_append hf htoken]
      simp only [List.cons_append] at hitem ⊢
      rw [if_neg hc, hitem]
      simp only [Option.bind_eq_bind, Option.bind_some,
        skipFree_append hf' (token_of_mem hmem t), if_true]
  | @cons a as f s f' s₂ hf ha hf' _ ih =>
    rintro (_ | ⟨tick, clock⟩) hclock
    · simp at hclock
    · have hcomma' : ',' ∈ [',', ']', '}'] := by decide
      have htoken := (hreads.starts ha).token (f' ++ ',' :: (s₂ ++ t))
      have hitem := hreads.reads ha (hf'.endsValue hcomma' (s₂ ++ t))
      obtain ⟨c, s', rfl, hc⟩ := hopen ha
      simp only [List.length_append, List.length_cons] at hclock
      simp only [List.append_assoc, List.cons_append]
      rw [items?, ← List.cons_append, skipFree_append hf htoken]
      simp only [List.cons_append] at hitem ⊢
      rw [if_neg hc, hitem]
      simp only [Option.bind_eq_bind, Option.bind_some,
        skipFree_append hf' (token_of_mem hcomma' (s₂ ++ t)), if_neg hcomma, if_true]
      rw [ih (by omega)]
      rfl

end Items

theorem PairText.startsItem {bounds : Bounds} {value : Value → List Char → Prop}
    {pair : Key × Value} {s : List Char} (h : PairText bounds value pair s) : StartsItem s := by
  cases h with
  | mk hkey => exact hkey.startsItem _

/-- A key with its value, if the value is read to its end. -/
theorem ReadsItems.pair {value : Value → List Char → Prop}
    {read : List Char → Option (Value × List Char)} (hreads : ReadsItems value read) :
    ReadsItems (PairText (reading oversized) value) (pair? read) where
  starts := PairText.startsItem
  reads := by
    intro pair s h t ht
    cases h with
    | @mk key v s b b' s' hkey hlimit hb hb' hv =>
      have hequals : EndsKey ('=' :: (b' ++ (s' ++ t))) := by
        rintro c ⟨⟩
        exact .inl rfl
      have hspace : ∀ c ∈ (s' ++ t).head?, isSpace c = false :=
        fun c hc => ((hreads.starts hv).token t c hc).1
      simp only [List.append_assoc, List.cons_append]
      simp only [pair?, key?_append hkey hlimit hb hequals, Option.bind_eq_bind, Option.bind_some,
        skipSpace_append hb' hspace, hreads.reads hv ht]

/-! ## Values -/

theorem StringText.head {t : String} {s : List Char} (h : StringText t s) :
    ∃ mark s', s = mark :: s' ∧ (mark = '"' ∨ mark = '\'') := by
  have hend : NoQuote [] := by rintro c ⟨⟩
  obtain ⟨mark, s', hs, hmark, -⟩ := quoted?_string h hend
  exact ⟨mark, s', hs, hmark⟩

theorem ScalarText.head {v : Value} {s : List Char} (h : ScalarText (reading oversized) v s) :
    ∃ c s', s = c :: s' ∧ isSpellingChar c = true := by
  have hv := ofSpelling?_of_scalarText h
  have hspelled : ∀ {s}, Spelled s → ∀ c ∈ s.head?, isSpellingChar c = true :=
    fun hs c hc => hs c (List.mem_of_mem_head? hc)
  have hstart : ∀ c ∈ s.head?, isSpellingChar c = true := by
    cases h with
    | yes => exact hspelled (List.all_eq_true.mp rfl)
    | no => exact hspelled (List.all_eq_true.mp rfl)
    | integer h => exact hspelled h.spelled
    | largeInteger _ h => exact hspelled h.spelled
    | float h => exact hspelled h.spelled
    | largeFloat _ hsign h => exact hspelled (hsign.spelled.append h.spelled)
    | dateTime h =>
      obtain ⟨a, b, front, mark, rest, rfl, hdigits, -⟩ := h.dateStart
      rintro c ⟨⟩
      exact isSpellingChar_of_isDigit (hdigits a List.mem_cons_self)
  obtain ⟨c, s', rfl⟩ : ∃ c s', s = c :: s' := by
    apply List.exists_cons_of_ne_nil
    rintro rfl
    cases hv
  exact ⟨c, s', rfl, hstart c rfl⟩

theorem PlainText.startsItem {v : Value} {s : List Char} (h : PlainText (reading oversized) v s) :
    StartsItem s := by
  cases h with
  | text h =>
    obtain ⟨mark, s', rfl, hmark⟩ := h.head
    refine ⟨mark, s', rfl, ?_⟩
    rcases hmark with rfl | rfl <;> decide
  | scalar h =>
    obtain ⟨c, s', rfl, hc⟩ := h.head
    have hne : ∀ d, isSpellingChar d = false → c ≠ d := by
      rintro d hd rfl
      rw [hc] at hd
      cases hd
    refine ⟨c, s', rfl, ?_, ?_⟩
    · simp [isSpace, hne ' ' (by decide), hne '\t' (by decide)]
    · simp only [List.mem_cons, List.not_mem_nil, or_false, not_or]
      refine ⟨?_, ?_, ?_, ?_, ?_, ?_⟩ <;> exact hne _ (by decide)

theorem EndsValue.noQuote {t : List Char} (h : EndsValue t) : NoQuote t := by
  intro c hc
  have hmem := h.head c hc
  constructor <;> (rintro rfl; revert hmem; decide)

/-- What starts with neither a quote nor a bracket is read without them. -/
theorem valueWith?_spelled (inner : Option (List Char → Option (Value × List Char))) {c : Char}
    (hc : isSpellingChar c = true) (s : List Char) :
    valueWith? inner (c :: s) = scalar? (c :: s) := by
  have hquote : ¬(c = '"' ∨ c = '\'') := by rintro (rfl | rfl) <;> cases hc
  have hbracket : c ≠ '[' := by
    rintro rfl
    cases hc
  have hbrace : c ≠ '{' := by
    rintro rfl
    cases hc
  rw [valueWith?, if_neg hquote, if_neg hbracket, if_neg hbrace]

theorem valueWith?_plain {v : Value} {s : List Char} (h : PlainText (reading oversized) v s)
    (inner : Option (List Char → Option (Value × List Char))) {t : List Char} (ht : EndsValue t) :
    valueWith? inner (s ++ t) = some (v, t) := by
  cases h with
  | text h =>
    obtain ⟨mark, s', rfl, hmark, hquoted⟩ := quoted?_string h ht.noQuote
    rw [List.cons_append, valueWith?, if_pos hmark, hquoted]
    rfl
  | scalar h =>
    have hscalar := scalar?_append h ht
    obtain ⟨c, s', rfl, hc⟩ := h.head
    rw [List.cons_append, valueWith?_spelled inner hc]
    exact hscalar

theorem readsItems_plain (inner : Option (List Char → Option (Value × List Char))) :
    ReadsItems (PlainText (reading oversized)) (valueWith? inner) where
  starts := PlainText.startsItem
  reads h _ ht := valueWith?_plain h inner ht

theorem ValueOver.startsItem {inner : Value → List Char → Prop} {v : Value} {s : List Char}
    (h : ValueOver (reading oversized) inner v s) : StartsItem s := by
  cases h with
  | plain h => exact h.startsItem
  | array => exact ⟨'[', _, rfl, by decide⟩
  | table => exact ⟨'{', _, rfl, by decide⟩

/-- A value is read if the values inside it are. -/
theorem ReadsItems.over {inner : Value → List Char → Prop}
    {read : List Char → Option (Value × List Char)} (hreads : ReadsItems inner read) :
    ReadsItems (ValueOver (reading oversized) inner) (valueWith? (some read)) where
  starts := ValueOver.startsItem
  reads := by
    intro v s h t ht
    have hlength : ∀ s : List Char, s.length ≤ (s ++ t).length := by
      intro s
      rw [List.length_append]
      omega
    cases h with
    | plain h => exact valueWith?_plain h _ ht
    | @array vs s h =>
      have hitems := hreads.items (.inl rfl) h t (hlength s)
      simp [valueWith?, hitems]
    | @table pairs entries s h hentries =>
      have hitems := hreads.pair.items (.inr rfl) h t (hlength s)
      simp [valueWith?, hitems, insertAll_of_gainsAll hentries]

/-- A value is taken off the text as a whole, however deep it is within the bounds. -/
theorem readsItems_value :
    ∀ depth : Nat, ReadsItems (ValueText (reading oversized) depth) (value? depth)
  | 0 => readsItems_plain none
  | depth + 1 => (readsItems_value depth).over

end LegBoard.Toml
