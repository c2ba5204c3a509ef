import LegBoard.Proofs.Settings.Environment

/-!
# Options in any order and spelling

On a command line made of options with their values, each option has exactly the value that stands
behind it, in the next word or behind an equals sign. Neither the order of the options nor their
spelling matters, and an option that is there twice is a conflict wherever the two stand. Words that
are no option with a value are outside of this.
-/
namespace LegBoard.Settings

theorem Flag.accepts_iff {flag : Flag} {value : String} :
    flag.accepts value = true ↔ (flag ≠ .graphiqlUrl → value ≠ "") := by
  cases flag <;> simp [accepts]

theorem Args.ext_get {args args' : Args} (h : ∀ flag, args'.get flag = args.get flag) :
    args' = args := by
  have hconfig : args'.config = args.config := h .config
  have hurl : args'.graphiqlUrl = args.graphiqlUrl := h .graphiqlUrl
  have hitinerary : args'.itinerary = args.itinerary := h .itinerary
  cases args
  cases args'
  simp_all

/-! ## Items of a command line -/

/-- An option with its value, as it stands on a command line. -/
structure Item where
  flag : Flag
  value : String
  /-- Whether the value stands behind an equals sign, and not in the next word. -/
  joined : Bool
  /-- A path has some characters. -/
  nonempty : flag ≠ .graphiqlUrl → value ≠ ""
  /-- A value in the next word does not look like an option. -/
  plain : joined = false → value.toList.head? ≠ some '-'

/-- The words of an item. -/
def Item.words (item : Item) : List String :=
  if item.joined then [item.flag.dashed ++ "=" ++ item.value] else [item.flag.dashed, item.value]

/-- What an item says, whatever its spelling. -/
def Item.given (item : Item) : Flag × String := (item.flag, item.value)

def commandLine (items : List Item) : List String := items.flatMap Item.words

/-- The same options with the same values, in any order and each in any spelling. -/
def SameGiven (items items' : List Item) : Prop :=
  (items'.map Item.given).Perm (items.map Item.given)

namespace CommandLine

theorem of_plain {word : String} (h : word.toList.head? ≠ some '-') :
    Word.of word = .other word := by
  unfold Word.of
  split
  · next hchars => simp [hchars] at h
  · next hchars => simp [hchars] at h
  · next hchars => simp [hchars] at h
  · next hchars => simp [hchars] at h
  · rfl

/-- Takes over what an item says. -/
def State.giveItem (state : State) (item : Item) : Except UsageError State :=
  state.give item.flag item.value

/-- The value of an item is accepted, so only an earlier one can be in its way. -/
theorem giveItem_eq (state : State) (item : Item) :
    state.giveItem item =
      if (state.args.get item.flag).isSome then .error .argumentConflict
      else .ok { state with args := state.args.set item.flag item.value } := by
  rw [State.giveItem, State.give, Flag.accepts_iff.mpr item.nonempty, if_pos rfl]

theorem settle_of_none {state : State} (h : state.pending = none) : state.settle = .ok state := by
  rw [State.settle, h]

/-! ## Reading items -/

/-- The words of an item settle what was pending and leave the item, looked at or not. -/
theorem readWords_item (item : Item) (state : State) (words : List String) :
    readWords state (item.words ++ words) = state.settle >>= fun state =>
      if item.joined then state.giveItem item >>= fun state => readWords state words
      else readWords { state with pending := some (item.flag, some item.value) } words := by
  unfold Item.words
  split
  · rw [List.singleton_append, readWords, of_joined]
    rfl
  · next hjoined =>
    have hword := of_plain (item.plain (Bool.eq_false_iff.mpr hjoined))
    rw [List.cons_append, List.singleton_append, readWords, of_dashed]
    refine congrArg (state.settle >>= ·) (funext fun state₁ => ?_)
    rw [readWords, hword]

/-- What the words of items come to is what the items say, one after the other, behind what was
pending. A pending item is looked at before the next one, so its spelling makes no difference. -/
theorem readWords_commandLine (items : List Item) (state : State) :
    readWords state (commandLine items) =
      state.settle >>= fun state => items.foldlM State.giveItem state := by
  induction items generalizing state with
  | nil =>
    change state.settle = _
    cases state.settle <;> rfl
  | cons item items ih =>
    have hwords : commandLine (item :: items) = item.words ++ commandLine items :=
      List.flatMap_cons
    rw [hwords, readWords_item]
    cases hsettle : state.settle with
    | error e => rfl
    | ok state₁ =>
      obtain ⟨hnone, -, -⟩ := knows_settle hsettle
      change (if item.joined then _ else _) =
        state₁.giveItem item >>= fun state => items.foldlM State.giveItem state
      split
      · cases hgive : state₁.giveItem item with
        | error e => rfl
        | ok state₂ =>
          obtain ⟨hpending, -⟩ := knows_give hgive
          change readWords state₂ (commandLine items) = items.foldlM State.giveItem state₂
          rw [ih, settle_of_none (hpending.trans hnone)]
          rfl
      · have hback : ({ state₁ with pending := none } : State) = state₁ := by
          rw [← hnone]
        rw [ih, State.settle, hback]
        rfl

theorem readWords_start (items : List Item) :
    readWords {} (commandLine items) = items.foldlM State.giveItem {} :=
  readWords_commandLine items {}

/-- Items of different options, none of which has a value yet, are all taken over. -/
theorem exists_foldlM_giveItem {items : List Item} {state : State}
    (hnodup : (items.map Item.flag).Nodup)
    (hnone : ∀ item ∈ items, state.args.get item.flag = none) :
    ∃ state', items.foldlM State.giveItem state = .ok state' := by
  induction items generalizing state with
  | nil => exact ⟨state, rfl⟩
  | cons item items ih =>
    rw [List.map_cons, List.nodup_cons] at hnodup
    rw [List.forall_mem_cons] at hnone
    rw [List.foldlM_cons, giveItem_eq, hnone.1]
    refine ih hnodup.2 fun other hother => ?_
    have hflag : other.flag ≠ item.flag :=
      fun heq => hnodup.1 (heq ▸ List.mem_map_of_mem hother)
    rw [Args.get_set, if_neg hflag]
    exact hnone.2 other hother

/-- Items one of which comes too late are a conflict, for all of them before it are fine. -/
theorem foldlM_giveItem_eq_error {items : List Item} {state : State}
    (h : ¬(items.map Item.flag).Nodup ∨ ∃ item ∈ items, (state.args.get item.flag).isSome) :
    items.foldlM State.giveItem state = .error .argumentConflict := by
  induction items generalizing state with
  | nil => simp at h
  | cons item items ih =>
    rw [List.foldlM_cons, giveItem_eq]
    by_cases hgiven : (state.args.get item.flag).isSome
    · rw [if_pos hgiven]
      rfl
    · rw [if_neg hgiven]
      refine ih ?_
      rw [List.map_cons, List.nodup_cons, Classical.not_and_iff_not_or_not, Classical.not_not] at h
      obtain (hagain | hlater) | ⟨other, hother, hsome⟩ := h
      · obtain ⟨other, hother, hflag⟩ := List.mem_map.mp hagain
        refine .inr ⟨other, hother, ?_⟩
        rw [Args.get_set, if_pos hflag]
        rfl
      · exact .inl hlater
      · obtain rfl | hother := List.mem_cons.mp hother
        · exact absurd hsome hgiven
        · refine .inr ⟨other, hother, ?_⟩
          rw [Args.get_set]
          split
          · rfl
          · exact hsome

theorem get_foldlM_giveItem {items : List Item} {state state' : State}
    (h : items.foldlM State.giveItem state = .ok state') (flag : Flag) (value : String) :
    state'.args.get flag = some value ↔
      state.args.get flag = some value ∨ (flag, value) ∈ items.map Item.given := by
  induction items generalizing state with
  | nil =>
    cases h
    simp
  | cons item items ih =>
    rw [List.foldlM_cons] at h
    obtain ⟨state₁, hgive, hrest⟩ := ok_of_bind h
    rw [ih hrest, (knows_give hgive).2, List.map_cons, List.mem_cons, or_assoc]
    simp [Item.given]

/-! ## The environment -/

/-- The environment is asked with success if it has acceptable values where none were given. -/
theorem exists_foldlM_askEnvironment (env : Args) {args : Args} (flags : List Flag)
    (h : ∀ flag value, args.get flag = none → env.get flag = some value →
      flag.accepts value = true) :
    ∃ args', flags.foldlM (askEnvironment env) args = .ok args' := by
  induction flags generalizing args with
  | nil => exact ⟨args, rfl⟩
  | cons f flags ih =>
    have hask : ∃ args₁, askEnvironment env args f = .ok args₁ := by
      unfold askEnvironment
      split
      · next value hnone hgiven => exact ⟨_, if_pos (h f value hnone hgiven)⟩
      · exact ⟨args, rfl⟩
    obtain ⟨args₁, hask⟩ := hask
    rw [List.foldlM_cons, hask]
    refine ih fun flag value hnone => h flag value ?_
    rw [get_askEnvironment hask] at hnone
    split at hnone
    · exact (Option.or_eq_none_iff.mp hnone).1
    · exact hnone

/-! ## Whole command lines -/

theorem mem_flags_iff {items : List Item} {flag : Flag} :
    flag ∈ items.map Item.flag ↔ ∃ value, (flag, value) ∈ items.map Item.given := by
  constructor
  · intro h
    obtain ⟨item, hitem, rfl⟩ := List.mem_map.mp h
    exact ⟨item.value, List.mem_map_of_mem hitem⟩
  · rintro ⟨value, h⟩
    obtain ⟨item, hitem, hgiven⟩ := List.mem_map.mp h
    exact List.mem_map.mpr ⟨item, hitem, congrArg Prod.fst hgiven⟩

theorem nodup_of_sameGiven {items items' : List Item} (h : SameGiven items items') :
    (items'.map Item.flag).Nodup ↔ (items.map Item.flag).Nodup := by
  have hflags := h.map Prod.fst
  rw [List.map_map, List.map_map] at hflags
  exact hflags.nodup_iff

/-- After items of different options, an option has what its item says. -/
theorem exists_readWords {items : List Item} (h : (items.map Item.flag).Nodup) :
    ∃ state, readWords {} (commandLine items) = .ok state ∧
      ∀ flag value, state.args.get flag = some value ↔ (flag, value) ∈ items.map Item.given := by
  have hstart : ∀ flag, ({} : State).args.get flag = none := fun flag => by cases flag <;> rfl
  obtain ⟨state, hstate⟩ := exists_foldlM_giveItem h fun item _ => hstart item.flag
  refine ⟨state, (readWords_start items).trans hstate, fun flag value => ?_⟩
  rw [get_foldlM_giveItem hstate, hstart]
  simp

theorem parse_sameGiven {items items' : List Item} (hnodup : (items.map Item.flag).Nodup)
    (h : SameGiven items items') (env : Args) :
    parse env (commandLine items') = parse env (commandLine items) := by
  obtain ⟨state, hread, hget⟩ := exists_readWords hnodup
  obtain ⟨state', hread', hget'⟩ := exists_readWords ((nodup_of_sameGiven h).mpr hnodup)
  have hargs : state'.args = state.args := by
    refine Args.ext_get fun flag => Option.ext fun value => ?_
    rw [hget, hget', h.mem_iff]
  rw [parse, parse, hread, hread']
  change Flag.all.foldlM (askEnvironment env) state'.args = _
  rw [hargs]
  rfl

theorem parse_eq_conflict {items : List Item} (h : ¬(items.map Item.flag).Nodup) (env : Args) :
    parse env (commandLine items) = .error .argumentConflict := by
  rw [parse, readWords_start, foldlM_giveItem_eq_error (.inl h)]
  rfl

/-- Options with their values lead to these values, and to those of the environment where an option
is missing. The order and the spelling of the options do not matter, also when one of them is there
twice. -/
theorem parse_commandLine (env : Args) (items : List Item) :
    ((items.map Item.flag).Nodup →
      (∀ flag ∉ items.map Item.flag, ∀ value, env.get flag = some value →
        flag ≠ .graphiqlUrl → value ≠ "") →
      ∃ args, parse env (commandLine items) = .ok args ∧
        (∀ item ∈ items, args.get item.flag = some item.value) ∧
        (∀ flag ∉ items.map Item.flag, args.get flag = env.get flag) ∧
        ∀ items', SameGiven items items' → parse env (commandLine items') = .ok args) ∧
    (¬(items.map Item.flag).Nodup →
      ∀ items', SameGiven items items' →
        parse env (commandLine items') = .error .argumentConflict) := by
  constructor
  · intro hnodup henv
    obtain ⟨state, hread, hgiven⟩ := exists_readWords hnodup
    have hmissing : ∀ flag, state.args.get flag = none ↔ flag ∉ items.map Item.flag := by
      intro flag
      rw [Option.eq_none_iff_forall_ne_some, mem_flags_iff, not_exists]
      exact forall_congr' fun value => not_congr (hgiven flag value)
    obtain ⟨args, hask⟩ := exists_foldlM_askEnvironment env Flag.all
      fun flag value hnone hvalue =>
        Flag.accepts_iff.mpr (henv flag ((hmissing flag).mp hnone) value hvalue)
    have hparse : parse env (commandLine items) = .ok args := by
      rw [parse, hread]
      exact hask
    have hget : ∀ flag, args.get flag = (state.args.get flag).or (env.get flag) := by
      intro flag
      rw [get_foldlM_askEnvironment hask, if_pos (mem_all flag)]
    refine ⟨args, hparse, fun item hitem => ?_, fun flag hflag => ?_, fun items' hsame => ?_⟩
    · rw [hget, (hgiven item.flag item.value).mpr (List.mem_map_of_mem hitem)]
      rfl
    · rw [hget, (hmissing flag).mpr hflag]
      rfl
    · rw [parse_sameGiven hnodup hsame, hparse]
  · intro hrepeated items' hsame
    exact parse_eq_conflict (fun hnodup => hrepeated ((nodup_of_sameGiven hsame).mp hnodup)) env

def urlItem : Item where
  flag := .graphiqlUrl
  value := "-x=y z"
  joined := true
  nonempty := by decide
  plain := by decide

/-- An option for the configuration file, in either spelling. -/
def configItem (joined : Bool) : Item where
  flag := .config
  value := "c d.toml"
  joined := joined
  nonempty := by decide
  plain _ := by decide

/-- Two options in either order, one of them in both spellings, with an itinerary that the
environment names; and the second one twice. -/
theorem parse_commandLine_of_two :
    let env : Args := { itinerary := some "i.json" }
    (∃ args, args.get .graphiqlUrl = some "-x=y z" ∧ args.get .config = some "c d.toml" ∧
      args.get .itinerary = some "i.json" ∧
      parse env ["--graphiql-url=-x=y z", "--config", "c d.toml"] = .ok args ∧
      parse env ["--config=c d.toml", "--graphiql-url=-x=y z"] = .ok args) ∧
    parse env ["--config", "c d.toml", "--config=c d.toml"] = .error .argumentConflict := by
  intro env
  have htwo : commandLine [urlItem, configItem false] =
      ["--graphiql-url=-x=y z", "--config", "c d.toml"] := by decide
  have hswapped : commandLine [configItem true, urlItem] =
      ["--config=c d.toml", "--graphiql-url=-x=y z"] := by decide
  have hagain : commandLine [configItem false, configItem true] =
      ["--config", "c d.toml", "--config=c d.toml"] := by decide
  have hnodup : ([urlItem, configItem false].map Item.flag).Nodup := by decide
  have henv : ∀ flag ∉ [urlItem, configItem false].map Item.flag, ∀ value,
      env.get flag = some value → flag ≠ .graphiqlUrl → value ≠ "" := by
    intro flag hflag value hvalue _
    cases flag with
    | config => exact absurd (by decide) hflag
    | graphiqlUrl => exact absurd (by decide) hflag
    | itinerary =>
      cases hvalue
      decide
  obtain ⟨args, hparse, hgiven, hmissing, hsame⟩ := (parse_commandLine env _).1 hnodup henv
  rw [List.forall_mem_cons, List.forall_mem_singleton] at hgiven
  refine ⟨⟨args, hgiven.1, hgiven.2, hmissing .itinerary (by decide), ?_, ?_⟩, ?_⟩
  · rw [← htwo]
    exact hparse
  · rw [← hswapped]
    exact hsame _ (.swap _ _ _)
  · rw [← hagain]
    exact (parse_commandLine env [configItem false, configItem true]).2 (by decide) _ (.refl _)

end CommandLine

end LegBoard.Settings
