import LegBoard.Proofs.Settings.Words

/-!
# Flag, then environment

An option that the words of a command line give has its value from them, and its variable of the
environment is not asked. An option that they do not give has the value of that variable.
-/
namespace LegBoard.Settings

namespace CommandLine

theorem get_askEnvironment {env args args' : Args} {flag : Flag}
    (h : askEnvironment env args flag = .ok args') (flag' : Flag) :
    args'.get flag' = if flag' = flag then (args.get flag').or (env.get flag')
      else args.get flag' := by
  unfold askEnvironment at h
  split at h
  · next value hnone hgiven =>
    split at h
    · cases h
      rw [Args.get_set]
      by_cases hsame : flag' = flag
      · subst hsame
        simp [hnone, hgiven]
      · simp [hsame]
    · cases h
  · next hother =>
    cases h
    by_cases hsame : flag' = flag
    · subst hsame
      cases hget : args.get flag' with
      | some value => simp
      | none =>
        cases henv : env.get flag' with
        | some value => exact absurd henv (hother value hget)
        | none => simp
    · simp [hsame]

theorem get_foldlM_askEnvironment {env args args' : Args} {flags : List Flag}
    (h : flags.foldlM (askEnvironment env) args = .ok args') (flag : Flag) :
    args'.get flag = if flag ∈ flags then (args.get flag).or (env.get flag)
      else args.get flag := by
  induction flags generalizing args with
  | nil =>
    cases h
    simp
  | cons f flags ih =>
    rw [List.foldlM_cons] at h
    obtain ⟨args₁, hask, hrest⟩ := ok_of_bind h
    rw [ih hrest, get_askEnvironment hask]
    by_cases hsame : flag = f
    · -- Once the environment was asked, asking it again gives nothing new.
      simp [hsame, Option.or_assoc]
    · simp [hsame]

theorem mem_all (flag : Flag) : flag ∈ Flag.all := by
  cases flag <;> decide

/-- In the end an option has the value that the words give it, and without one that of the
environment. -/
theorem get_parse {env args : Args} {words : List String} (h : parse env words = .ok args) :
    ∃ state, readWords {} words = .ok state ∧
      ∀ flag, args.get flag = (state.args.get flag).or (env.get flag) := by
  obtain ⟨state, hwords, hask⟩ := ok_of_bind h
  refine ⟨state, hwords, fun flag => ?_⟩
  rw [get_foldlM_askEnvironment hask, if_pos (mem_all flag)]

theorem get_of_gives {env args : Args} {words : List String} (h : parse env words = .ok args)
    {flag : Flag} {value : String} (hgives : Gives flag value words) :
    args.get flag = some value := by
  obtain ⟨state, hwords, hget⟩ := get_parse h
  rw [hget, (get_readWords_start hwords flag value).mpr hgives]
  rfl

theorem get_of_environment {env args : Args} {words : List String}
    (h : parse env words = .ok args) {flag : Flag} (hwords : ∀ given, ¬Gives flag given words)
    {value : String} (henv : env.get flag = some value) : args.get flag = some value := by
  obtain ⟨state, hread, hget⟩ := get_parse h
  have hnone : state.args.get flag = none := by
    rw [Option.eq_none_iff_forall_ne_some]
    exact fun given hgiven => hwords given ((get_readWords_start hread flag given).mp hgiven)
  rw [hget, hnone, henv]
  rfl

/-- Two environments that differ in one variable at most. -/
def AgreeOff (flag : Flag) (env env' : Args) : Prop :=
  ∀ other, other ≠ flag → env'.get other = env.get other

theorem askEnvironment_agreeOff {flag : Flag} {env env' : Args} (hagree : AgreeOff flag env env')
    {args : Args} (hgiven : (args.get flag).isSome) (f : Flag) :
    askEnvironment env' args f = askEnvironment env args f := by
  by_cases hsame : f = flag
  · obtain ⟨value, hvalue⟩ := Option.isSome_iff_exists.mp hgiven
    simp [askEnvironment, hsame, hvalue]
  · simp only [askEnvironment, hagree f hsame]

/-- The environment is not asked for an option that is there. -/
theorem foldlM_askEnvironment_agreeOff {flag : Flag} {env env' : Args}
    (hagree : AgreeOff flag env env') {args : Args} (hgiven : (args.get flag).isSome)
    (flags : List Flag) :
    flags.foldlM (askEnvironment env') args = flags.foldlM (askEnvironment env) args := by
  induction flags generalizing args with
  | nil => rfl
  | cons f flags ih =>
    rw [List.foldlM_cons, List.foldlM_cons, askEnvironment_agreeOff hagree hgiven]
    cases hask : askEnvironment env args f with
    | error e => rfl
    | ok args₁ =>
      have hkept : (args₁.get flag).isSome := by
        rw [get_askEnvironment hask]
        split
        · simp [hgiven]
        · exact hgiven
      exact ih hkept

theorem parse_agreeOff {flag : Flag} {env env' : Args} (hagree : AgreeOff flag env env')
    {words : List String} (hgives : ∃ given, Gives flag given words) :
    parse env' words = parse env words := by
  unfold parse
  cases hwords : readWords {} words with
  | error e => rfl
  | ok state =>
    obtain ⟨given, hgiven⟩ := hgives
    have hget := (get_readWords_start hwords flag given).mpr hgiven
    exact foldlM_askEnvironment_agreeOff hagree (by rw [hget]; rfl) Flag.all

/-- What the words or the environment give is there, if not always with that value. -/
theorem exists_get {env args : Args} {words : List String}
    (h : parse env words = .ok args) {flag : Flag} {value : String}
    (hgiven : Gives flag value words ∨ env.get flag = some value) :
    ∃ value', args.get flag = some value' := by
  obtain hgives | henv := hgiven
  · exact ⟨value, get_of_gives h hgives⟩
  · by_cases hwords : ∃ given, Gives flag given words
    · obtain ⟨given, hgives⟩ := hwords
      exact ⟨given, get_of_gives h hgives⟩
    · exact ⟨value, get_of_environment h (not_exists.mp hwords) henv⟩

end CommandLine

end LegBoard.Settings
