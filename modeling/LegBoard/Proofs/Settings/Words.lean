import LegBoard.Proofs.Fallible
import LegBoard.Settings.CommandLine

/-!
# What the words of a command line give

The words are read from left to right, with one option pending at most. In the end, an option of an
accepted command line has exactly the value that some words give it: in the next word, or behind an
equals sign. Nothing is said here of the command lines that are refused.
-/
namespace LegBoard.Settings

/-- An option as it is written. -/
def Flag.dashed (flag : Flag) : String := "--" ++ flag.name

/-- Some words give an option a value, in the next word or behind an equals sign. -/
inductive Gives (flag : Flag) (value : String) : List String → Prop
  | next {words : List String} : Gives flag value (flag.dashed :: value :: words)
  | joined {words : List String} : Gives flag value ((flag.dashed ++ "=" ++ value) :: words)
  | later {word : String} {words : List String} (h : Gives flag value words) :
      Gives flag value (word :: words)

namespace Args

theorem get_set (args : Args) (flag flag' : Flag) (value : String) :
    (args.set flag value).get flag' = if flag' = flag then some value else args.get flag' := by
  cases flag <;> cases flag' <;> rfl

end Args

namespace CommandLine

/-! ## Single words -/

theorem of_dashed (flag : Flag) : Word.of flag.dashed = .flag flag := by
  cases flag <;> rfl

theorem ofName?_eq_some {name : String} {flag : Flag} (h : Flag.ofName? name = some flag) :
    name = flag.name := by
  have hname := List.find?_some h
  exact (beq_iff_eq.mp hname).symm

theorem ofName?_name (flag : Flag) : Flag.ofName? flag.name = some flag := by
  cases flag <;> decide

/-- No name of an option holds an equals sign. -/
theorem ne_equals_of_mem_name {flag : Flag} {c : Char} (h : c ∈ flag.name.toList) :
    decide (c ≠ '=') = true := by
  have hall : flag.name.toList.all (· ≠ '=') = true := by
    cases flag <;> decide
  exact List.all_eq_true.mp hall c h

theorem longWord_joined (flag : Flag) (cs : List Char) :
    longWord (flag.name.toList ++ '=' :: cs) = .flagWithValue flag (String.ofList cs) := by
  have hname : (flag.name.toList ++ '=' :: cs).takeWhile (· ≠ '=') = flag.name.toList := by
    rw [List.takeWhile_append_of_pos fun c hc => ne_equals_of_mem_name hc,
      List.takeWhile_cons_of_neg (by decide), List.append_nil]
  have hvalue : (flag.name.toList ++ '=' :: cs).dropWhile (· ≠ '=') = '=' :: cs := by
    rw [List.dropWhile_append_of_pos fun c hc => ne_equals_of_mem_name hc,
      List.dropWhile_cons_of_neg (by decide)]
  simp only [longWord, hname, hvalue, String.ofList_toList, ofName?_name]

theorem of_joined (flag : Flag) (value : String) :
    Word.of (flag.dashed ++ "=" ++ value) = .flagWithValue flag value := by
  have hchars : (flag.dashed ++ "=" ++ value).toList =
      '-' :: '-' :: (flag.name.toList ++ '=' :: value.toList) := by
    simp [Flag.dashed]
  have hlong := longWord_joined flag value.toList
  rw [String.ofList_toList] at hlong
  unfold Word.of
  rw [hchars]
  cases flag <;> exact hlong

/-- What a word behind two dashes can be. -/
theorem longWord_cases (cs : List Char) :
    (∃ flag, cs = flag.name.toList ∧ longWord cs = .flag flag) ∨
    (∃ flag value, cs = flag.name.toList ++ '=' :: value ∧
      longWord cs = .flagWithValue flag (String.ofList value)) ∨
    longWord cs = .help ∨ longWord cs = .helpWithValue ∨ longWord cs = .unknownOption := by
  have hsplit := List.takeWhile_append_dropWhile (p := fun c : Char => decide (c ≠ '=')) (l := cs)
  have hhead := List.head?_dropWhile_not (fun c : Char => decide (c ≠ '=')) cs
  unfold longWord
  dsimp only
  split
  · next flag hrest hname =>
    refine .inl ⟨flag, ?_, rfl⟩
    rw [← ofName?_eq_some hname, String.toList_ofList]
    rw [hrest, List.append_nil] at hsplit
    exact hsplit.symm
  · next c value flag hrest hname =>
    refine .inr (.inl ⟨flag, value, ?_, rfl⟩)
    rw [hrest] at hsplit hhead
    obtain rfl : c = '=' := by simpa using hhead
    rw [← ofName?_eq_some hname, String.toList_ofList]
    exact hsplit.symm
  · split <;> simp
  · split <;> simp

/-- What a word can be. -/
theorem of_cases (word : String) :
    (∃ flag, word = flag.dashed ∧ Word.of word = .flag flag) ∨
    (∃ flag value, word = flag.dashed ++ "=" ++ value ∧
      Word.of word = .flagWithValue flag value) ∨
    Word.of word = .other word ∨
    Word.of word ∈ [.terminator, .help, .helpWithValue, .unknownOption] := by
  unfold Word.of
  split
  · simp
  · next cs _ hchars =>
    obtain ⟨flag, rfl, h⟩ | ⟨flag, value, rfl, h⟩ | h := longWord_cases cs
    · refine .inl ⟨flag, ?_, h⟩
      rw [← String.toList_inj, hchars, Flag.dashed, String.toList_append]
      rfl
    · refine .inr (.inl ⟨flag, String.ofList value, ?_, h⟩)
      rw [← String.toList_inj, hchars]
      simp [Flag.dashed]
    · obtain h | h | h := h <;> simp [h]
  · simp
  · simp
  · simp

theorem of_eq_flag_iff {word : String} {flag : Flag} :
    Word.of word = .flag flag ↔ word = flag.dashed := by
  constructor
  · intro h
    obtain ⟨_, rfl, hword⟩ | ⟨_, _, -, hword⟩ | hword | hword := of_cases word
    · cases hword.symm.trans h
      rfl
    · cases hword.symm.trans h
    · cases hword.symm.trans h
    · simp [h] at hword
  · rintro rfl
    exact of_dashed flag

theorem of_eq_flagWithValue_iff {word value : String} {flag : Flag} :
    Word.of word = .flagWithValue flag value ↔ word = flag.dashed ++ "=" ++ value := by
  constructor
  · intro h
    obtain ⟨_, -, hword⟩ | ⟨_, _, rfl, hword⟩ | hword | hword := of_cases word
    · cases hword.symm.trans h
    · cases hword.symm.trans h
      rfl
    · cases hword.symm.trans h
    · simp [h] at hword
  · rintro rfl
    exact of_joined flag value

theorem other_of_word {word word' : String} (h : Word.of word = .other word') : word' = word := by
  obtain ⟨_, -, hword⟩ | ⟨_, _, -, hword⟩ | hword | hword := of_cases word
  · cases hword.symm.trans h
  · cases hword.symm.trans h
  · cases hword.symm.trans h
    rfl
  · simp [h] at hword

/-- What a word is by itself decides how it gives a value. -/
theorem gives_cons {flag : Flag} {value word : String} {words : List String} :
    Gives flag value (word :: words) ↔
      (Word.of word = .flag flag ∧ words.head? = some value) ∨
        Word.of word = .flagWithValue flag value ∨ Gives flag value words := by
  constructor
  · intro h
    cases h with
    | next => exact .inl ⟨of_dashed flag, rfl⟩
    | joined => exact .inr (.inl (of_joined flag value))
    | later h => exact .inr (.inr h)
  · rintro (⟨hword, hhead⟩ | hword | h)
    · obtain rfl := of_eq_flag_iff.mp hword
      obtain ⟨words, rfl⟩ := List.head?_eq_some_iff.mp hhead
      exact .next
    · obtain rfl := of_eq_flagWithValue_iff.mp hword
      exact .joined
    · exact .later h

/-! ## Reading the words -/

/-- A value that is known for an option, whether or not it was looked at. Settling does not change
what is known, and each word adds what it gives. -/
def State.Knows (state : State) (flag : Flag) (value : String) : Prop :=
  state.args.get flag = some value ∨ state.pending = some (flag, some value)

theorem knows_give {state state' : State} {flag : Flag} {given : String}
    (h : state.give flag given = .ok state') :
    state'.pending = state.pending ∧ ∀ flag' value, state'.args.get flag' = some value ↔
      state.args.get flag' = some value ∨ (flag' = flag ∧ value = given) := by
  unfold State.give at h
  split at h
  · cases h
  · next hnone =>
    have hflag : state.args.get flag = none := by simpa using hnone
    split at h
    · cases h
      refine ⟨rfl, fun flag' value => ?_⟩
      rw [Args.get_set]
      by_cases hsame : flag' = flag
      · subst hsame
        rw [if_pos rfl, hflag]
        simp [eq_comm]
      · rw [if_neg hsame]
        simp [hsame]
    · cases h

theorem knows_settle {state state' : State} (h : state.settle = .ok state') :
    state'.pending = none ∧ (∀ flag, state.pending ≠ some (flag, none)) ∧
      ∀ flag value, state'.args.get flag = some value ↔ state.Knows flag value := by
  unfold State.settle at h
  split at h
  · next hpending =>
    cases h
    refine ⟨hpending, fun flag hflag => ?_, fun flag value => ?_⟩
    · rw [hpending] at hflag
      cases hflag
    · rw [State.Knows, hpending]
      simp
  · cases h
  · next flag given hpending =>
    obtain ⟨hnone, hget⟩ := knows_give h
    refine ⟨hnone, fun flag' hflag' => ?_, fun flag' value => ?_⟩
    · rw [hpending] at hflag'
      cases hflag'
    · rw [hget, State.Knows, hpending]
      simp [eq_comm]

/-- After the words of a command line, an option has the values that it had before them, and those
that the words give it. -/
theorem get_readWords {state state' : State} {words : List String}
    (h : readWords state words = .ok state') (flag : Flag) (value : String) :
    state'.args.get flag = some value ↔
      state.Knows flag value ∨ (state.pending = some (flag, none) ∧ words.head? = some value) ∨
        Gives flag value words := by
  induction words generalizing state with
  | nil =>
    obtain ⟨-, hpending, hget⟩ := knows_settle h
    rw [hget]
    constructor
    · exact .inl
    · rintro (hknows | ⟨hnone, -⟩ | hgives)
      · exact hknows
      · exact absurd hnone (hpending flag)
      · cases hgives
  | cons word words ih =>
    unfold readWords at h
    -- One case for each kind of word. What a pending option still misses comes with the first
    -- word that is no option; every other word finds nothing missing, or is refused.
    split at h
    · next hword =>
      split at h
      · next hend =>
        subst hend
        obtain ⟨-, hpending, hget⟩ := knows_settle h
        have hnone : ¬Gives flag value [word] := by
          rw [gives_cons, hword]
          rintro (⟨hflag, -⟩ | hjoined | hgives)
          · cases hflag
          · cases hjoined
          · cases hgives
        simp [hget, hpending, hnone]
      · cases h
    · obtain ⟨_, -, h⟩ := ok_of_bind h
      cases h
    · cases h
    · cases h
    · next f hword =>
      obtain ⟨state₁, hsettle, h⟩ := ok_of_bind h
      obtain ⟨-, hpending, hget⟩ := knows_settle hsettle
      have hknows : ({ state₁ with pending := some (f, none) } : State).Knows flag value ↔
          state.Knows flag value := by
        rw [← hget]
        simp [State.Knows]
      rw [ih h, hknows, gives_cons, hword]
      simp [hpending, eq_comm]
    · next f given hword =>
      obtain ⟨state₁, hsettle, h⟩ := ok_of_bind h
      obtain ⟨state₂, hgive, h⟩ := ok_of_bind h
      obtain ⟨hnone, hpending, hget⟩ := knows_settle hsettle
      obtain ⟨hpending₂, hget₂⟩ := knows_give hgive
      have hknows : state₂.Knows flag value ↔
          state.Knows flag value ∨ (flag = f ∧ value = given) := by
        rw [State.Knows, hget₂, hget, hpending₂, hnone]
        simp
      rw [ih h, hknows, gives_cons, hword, hpending₂, hnone]
      simp [hpending, or_assoc, eq_comm]
    · next other hword =>
      split at h
      · next f hpending =>
        rw [ih h, gives_cons, hword]
        simp [State.Knows, hpending, other_of_word hword, or_assoc]
      · cases h

/-- An option that is looked at in an accepted command line has the value that its words give. -/
theorem get_readWords_start {state : State} {words : List String}
    (h : readWords {} words = .ok state) (flag : Flag) (value : String) :
    state.args.get flag = some value ↔ Gives flag value words := by
  have hnone : ¬({} : State).Knows flag value := by
    rintro (hget | hpending)
    · cases flag <;> cases hget
    · cases hpending
  rw [get_readWords h]
  simp [hnone]

end CommandLine

end LegBoard.Settings
