import LegBoard.Proofs.Board.Glances
import LegBoard.Proofs.Fallible
import LegBoard.Proofs.Json.Exchanges
import LegBoard.Proofs.ListForms

/-!
# Changes that the page does not show

The page never asks for the text colour of a line's branding, and a branding, a sign or a call in
which there is nothing looks to it as if it was not there. So the text of an itinerary may be
changed in these, and the page stays as it is, character by character. A line with nothing in it is
different: it gets a link where the leg had a dash.
-/
namespace LegBoard.Board

open LegBoard.Json
open LegBoard.Transit

/-! ## Changes to a document -/

/-- The fields that look the same whether they are not there or there is nothing in them. -/
def hollowNames : List String := ["presentation", "destinationDisplay", "toEstimatedCall"]

/-- What the field of a name may be given without being seen: a text colour that can be read, or
one of the three ways to say that there is nothing. -/
inductive Unseen : String → Shape → Option Document → Prop
  | textColour (given : Option Document) (h : (optionalText.valueOfGiven? given).isSome) :
      Unseen "textColour" optionalText given
  | absent {name : String} {inner : Shape} (hname : name ∈ hollowNames) :
      Unseen name (.optional inner) none
  | null {name : String} {inner : Shape} (hname : name ∈ hollowNames) :
      Unseen name (.optional inner) (some .null)
  | empty {name record : String} {fields : Fields} (hname : name ∈ hollowNames) :
      Unseen name (.optional (.record record false fields)) (some (.object []))

/-- In one place of a document, what is given for a field was unseen and is so again. -/
inductive Retouches : Shape → Document → Document → Prop
  | here {record name : String} {fields : Fields} {inner : Shape} {given given' : Option Document}
      {d d' : Document} (hinner : fields.shapeOf? name = some inner)
      (hgiven : Unseen name inner given) (hgiven' : Unseen name inner given')
      (h : Exchanges fields name given given' d d') : Retouches (.record record false fields) d d'
  | inside {record name : String} {fields : Fields} {e e' d d' : Document} (inner : Shape)
      (hinner : fields.shapeOf? name = some inner) (hpart : Retouches inner e e')
      (h : Exchanges fields name (some e) (some e') d d') :
      Retouches (.record record false fields) d d'
  | item {item : Shape} {d d' : Document} (before behind : List Document)
      (h : Retouches item d d') :
      Retouches (.list item) (.list (before ++ d :: behind)) (.list (before ++ d' :: behind))
  | optional {inner : Shape} {d d' : Document} (h : Retouches inner d d') :
      Retouches (.optional inner) d d'

/-! ## Values that look alike -/

mutual

/-- Values of a shape that look alike. Of a field that may be absent, it depends on its name
whether it is looked at, and whether one can tell that it is absent. -/
def Alike (name : String) : (shape : Shape) → shape.Value → shape.Value → Prop
  | .text, v, v' => v = v'
  | .tag, v, v' => v = v'
  | .optional inner, v, v' =>
    if name = "textColour" then True
    else if name ∈ hollowNames then Alike "" inner (v.getD inner.blank) (v'.getD inner.blank)
    else Option.Rel (Alike "" inner) v v'
  | .list item, v, v' => List.Forall₂ (Alike "" item) v v'
  | .record _ _ fields, vs, vs' => AllAlike fields vs vs'

def AllAlike : (fields : Fields) → fields.Values → fields.Values → Prop
  | .nil, _, _ => True
  | .cons name shape rest, (v, vs), (v', vs') => Alike name shape v v' ∧ AllAlike rest vs vs'

end

theorem alike_optional {name : String} {inner : Shape} {v v' : Option inner.Value} :
    Alike name (.optional inner) v v' ↔
      if name = "textColour" then True
      else if name ∈ hollowNames then Alike "" inner (v.getD inner.blank) (v'.getD inner.blank)
      else Option.Rel (Alike "" inner) v v' := Iff.rfl

mutual

theorem alike_refl (name : String) : (shape : Shape) → (v : shape.Value) → Alike name shape v v
  | .text, _ => rfl
  | .tag, _ => rfl
  | .optional inner, v => by
    refine alike_optional.mpr ?_
    split
    · trivial
    split
    · exact alike_refl "" inner _
    · cases v with
      | none => exact .none
      | some v => exact .some (alike_refl "" inner v)
  | .list item, vs => List.forall₂_same.mpr fun v _ => alike_refl "" item v
  | .record _ _ fields, vs => allAlike_refl fields vs

theorem allAlike_refl : (fields : Fields) → (vs : fields.Values) → AllAlike fields vs vs
  | .nil, _ => trivial
  | .cons name shape rest, (v, vs) => ⟨alike_refl name shape v, allAlike_refl rest vs⟩

end

theorem allAlike_of_opening {fields : Fields} {name : String} {inner : Shape}
    {put : inner.Value → fields.Values} (h : Opening fields name inner put) {v v' : inner.Value}
    (hv : Alike name inner v v') : AllAlike fields (put v) (put v') := by
  induction h with
  | here vs => exact ⟨hv, allAlike_refl _ vs⟩
  | behind hne w _ ih => exact ⟨alike_refl _ _ w, ih hv⟩

theorem alike_some {name : String} {inner : Shape} {v v' : inner.Value}
    (h : Alike "" inner v v') : Alike name (.optional inner) (some v) (some v') := by
  rw [alike_optional]
  split
  · trivial
  split
  · exact h
  · exact .some h

theorem alike_of_hollow {name : String} (hname : name ∈ hollowNames) {inner : Shape}
    {v v' : Option inner.Value} (h : v.getD inner.blank = v'.getD inner.blank) :
    Alike name (.optional inner) v v' := by
  have hcolour : name ≠ "textColour" := by
    rintro rfl
    exact absurd hname (by decide)
  rw [alike_optional, if_neg hcolour, if_pos hname, h]
  exact alike_refl "" inner _

/-- What is not seen can be read, and there is nothing in it. -/
theorem Unseen.exists_value {name : String} {inner : Shape} {given : Option Document}
    (h : Unseen name (.optional inner) given) :
    ∃ v : Option inner.Value, (Shape.optional inner).valueOfGiven? given = some v ∧
      (name = "textColour" ∨ name ∈ hollowNames ∧ v.getD inner.blank = inner.blank) := by
  cases h with
  | textColour _ h =>
    obtain ⟨v, hv⟩ := Option.isSome_iff_exists.mp h
    exact ⟨v, hv, .inl rfl⟩
  | absent hname => exact ⟨none, rfl, .inr ⟨hname, rfl⟩⟩
  | null hname => exact ⟨none, rfl, .inr ⟨hname, rfl⟩⟩
  | @empty _ record fields hname =>
    have hvalue : (Shape.record record false fields).valueOf? (.object []) = some fields.blank := by
      rw [valueOf?_record_object]
      exact fields.byName?_nil
    exact ⟨some fields.blank, congrArg (Option.map some) hvalue, .inr ⟨hname, rfl⟩⟩

theorem Unseen.exists_optional {name : String} {inner : Shape} {given : Option Document}
    (h : Unseen name inner given) : ∃ shape, inner = .optional shape := by
  cases h <;> exact ⟨_, rfl⟩

/-- So it looks like anything else that is not seen. -/
theorem Unseen.exists_alike {name : String} {inner : Shape} {given given' : Option Document}
    (h : Unseen name inner given) (h' : Unseen name inner given') {v : inner.Value}
    (hv : inner.valueOfGiven? given = some v) :
    ∃ v', inner.valueOfGiven? given' = some v' ∧ Alike name inner v v' := by
  obtain ⟨inner, rfl⟩ := h.exists_optional
  obtain ⟨w, hw, hseen⟩ := h.exists_value
  obtain ⟨v', hv', hseen'⟩ := h'.exists_value
  obtain rfl : v = w := Option.some.inj (hv.symm.trans hw)
  refine ⟨v', hv', ?_⟩
  rcases hseen with rfl | ⟨hname, hblank⟩
  · exact alike_optional.mpr (if_pos rfl ▸ trivial)
  · rcases hseen' with rfl | ⟨-, hblank'⟩
    · exact absurd hname (by decide)
    · exact alike_of_hollow hname (hblank.trans hblank'.symm)

/-- A part of a document that is retouched is not `null`. -/
theorem Retouches.ne_null {shape : Shape} {d d' : Document} (h : Retouches shape d d') :
    d ≠ .null ∧ d' ≠ .null := by
  induction h with
  | here _ _ _ h => cases h <;> exact ⟨nofun, nofun⟩
  | inside _ _ _ h => cases h <;> exact ⟨nofun, nofun⟩
  | item => exact ⟨nofun, nofun⟩
  | optional _ ih => exact ih

/-- A retouched document stands for a value that looks like the one before. -/
theorem Retouches.exists_value {shape : Shape} {d d' : Document} (h : Retouches shape d d') :
    ∀ {v : shape.Value}, shape.valueOf? d = some v →
      ∃ v', shape.valueOf? d' = some v' ∧ ∀ name, Alike name shape v v' := by
  induction h with
  | here hinner hgiven hgiven' h =>
    intro vs hvs
    obtain ⟨put, v, hopening, hv, rfl, hput⟩ := h.puts _ hinner hvs
    obtain ⟨v', hv', halike⟩ := hgiven.exists_alike hgiven' hv
    exact ⟨put v', hput v' hv', fun _ => allAlike_of_opening hopening halike⟩
  | inside inner hinner _ h ih =>
    intro vs hvs
    obtain ⟨put, v, hopening, hv, rfl, hput⟩ := h.puts _ hinner hvs
    obtain ⟨v', hv', halike⟩ := ih hv
    exact ⟨put v', hput v' hv', fun _ => allAlike_of_opening hopening (halike _)⟩
  | item before behind _ ih =>
    intro vs hvs
    obtain ⟨front, v, back, hfront, hv, hback, rfl⟩ := mapM_middle.mp hvs
    obtain ⟨v', hv', halike⟩ := ih hv
    refine ⟨front ++ v' :: back, mapM_middle.mpr ⟨front, v', back, hfront, hv', hback, rfl⟩, ?_⟩
    intro name
    exact List.rel_append (List.forall₂_same.mpr fun w _ => alike_refl "" _ w)
      (.cons (halike "") (List.forall₂_same.mpr fun w _ => alike_refl "" _ w))
  | optional h ih =>
    intro v hv
    obtain ⟨hnull, hnull'⟩ := h.ne_null
    have hinner := (valueOf?_optional hnull _).symm.trans hv
    obtain ⟨w, hw, rfl⟩ := Option.map_eq_some_iff.mp hinner
    obtain ⟨v', hv', halike⟩ := ih hw
    refine ⟨some v', ?_, fun _ => alike_some (halike "")⟩
    exact (valueOf?_optional hnull' _).trans (congrArg (Option.map some) hv')

/-! ## What is seen of an itinerary -/

/-- A field that may be absent, and does not belong to those that are looked past. -/
theorem rel_of_alike {name : String} (hname : name ∉ "textColour" :: hollowNames) {inner : Shape}
    {v v' : Option inner.Value} (h : Alike name (.optional inner) v v') :
    Option.Rel (Alike "" inner) v v' := by
  rw [List.mem_cons, not_or] at hname
  rwa [alike_optional, if_neg hname.1, if_neg hname.2] at h

theorem getD_of_alike {name : String} (hname : name ∈ hollowNames) {inner : Shape}
    {v v' : Option inner.Value} (h : Alike name (.optional inner) v v') :
    Alike "" inner (v.getD inner.blank) (v'.getD inner.blank) := by
  have hcolour : name ≠ "textColour" := by
    rintro rfl
    exact absurd hname (by decide)
  rwa [alike_optional, if_neg hcolour, if_pos hname] at h

theorem eq_of_alike_text {name : String} (hname : name ∉ "textColour" :: hollowNames)
    {v v' : Option String} (h : Alike name optionalText v v') : v = v' := by
  have hrel : Option.Rel (Alike "" .text) v v' := rel_of_alike hname h
  cases hrel with
  | none => rfl
  | some htext => exact congrArg some htext

/-- The colour of a line that has no branding is that of an empty one. -/
theorem lineColour_ofValue (mode : String) (id code : Option String)
    (presentation : Option Presentation.shape.Value) (call : Option EstimatedCall.shape.Value) :
    (Format.ofValue (α := Leg) (mode, some (id, code, presentation, ()), call, ())).lineColour =
      (presentation.getD Presentation.shape.blank).1 := by
  rcases presentation with _ | ⟨colour, textColour, ⟨⟩⟩ <;> rfl

theorem frontText_ofValue (mode : String) (line : Option Line.shape.Value)
    (call : Option EstimatedCall.shape.Value) :
    (Format.ofValue (α := Leg) (mode, line, call, ())).frontText =
      ((call.getD EstimatedCall.shape.blank).1.getD DestinationDisplay.shape.blank).1 := by
  rcases call with _ | ⟨_ | ⟨text, ⟨⟩⟩, ⟨⟩⟩ <;> rfl

/-- Legs that look alike as values look alike to the page. -/
theorem glance_of_alike {v v' : Leg.shape.Value} (h : Alike "" Leg.shape v v') :
    Glance.of (Format.ofValue v) = Glance.of (Format.ofValue v') := by
  obtain ⟨mode, line, call, ⟨⟩⟩ := v
  obtain ⟨mode', line', call', ⟨⟩⟩ := v'
  obtain ⟨hmode, hline, hcall, -⟩ := h
  obtain rfl : mode = mode' := hmode
  obtain ⟨hdisplay, -⟩ := getD_of_alike (by decide) hcall
  obtain ⟨htext, -⟩ := getD_of_alike (by decide) hdisplay
  have hsign : (Format.ofValue (α := Leg) (mode, line, call, ())).frontText =
      (Format.ofValue (α := Leg) (mode, line', call', ())).frontText :=
    (frontText_ofValue mode line call).trans
      ((eq_of_alike_text (by decide) htext).trans (frontText_ofValue mode line' call').symm)
  cases rel_of_alike (by decide) hline with
  | none => exact congrArg (Glance.mk (Mode.ofName mode) false none none none) hsign
  | @some line line' hparts =>
    obtain ⟨id, code, presentation, ⟨⟩⟩ := line
    obtain ⟨id', code', presentation', ⟨⟩⟩ := line'
    obtain ⟨hid, hcode, hpresentation, -⟩ := hparts
    obtain rfl : id = id' := eq_of_alike_text (by decide) hid
    obtain rfl : code = code' := eq_of_alike_text (by decide) hcode
    obtain ⟨hbranding, -⟩ := getD_of_alike (by decide) hpresentation
    have hcolour :
        (Format.ofValue (α := Leg) (mode, some (id, code, presentation, ()), call, ())).lineColour =
          (Format.ofValue (α := Leg)
            (mode, some (id, code, presentation', ()), call', ())).lineColour :=
      (lineColour_ofValue mode id code presentation call).trans
        ((eq_of_alike_text (by decide) hbranding).trans
          (lineColour_ofValue mode id code presentation' call').symm)
    have hglance := congr (congrArg (Glance.mk (Mode.ofName mode) true id code) hcolour) hsign
    exact hglance

theorem glances_of_alike {v v' : Itinerary.shape.Value} (h : Alike "" Itinerary.shape v v') :
    (Format.ofValue v : Itinerary).legs.map Glance.of =
      (Format.ofValue v' : Itinerary).legs.map Glance.of := by
  obtain ⟨legs, ⟨⟩⟩ := v
  obtain ⟨legs', ⟨⟩⟩ := v'
  obtain ⟨hlegs, -⟩ := h
  have hglances : legs.map (fun v => Glance.of (Format.ofValue (α := Leg) v)) =
      legs'.map fun v => Glance.of (Format.ofValue (α := Leg) v) := by
    induction (hlegs : List.Forall₂ (Alike "" Leg.shape) legs legs') with
    | nil => rfl
    | cons hleg _ ih => rw [List.map_cons, List.map_cons, glance_of_alike hleg, ih]
  have hmap : ∀ vs : List Leg.shape.Value,
      (Format.ofValue (α := Itinerary) (vs, ())).legs.map Glance.of =
        vs.map fun v => Glance.of (Format.ofValue (α := Leg) v) := fun _ => List.map_map
  exact (hmap legs).trans (hglances.trans (hmap legs').symm)

/-- However often it is retouched, a document stays that of an itinerary of the same glances. -/
theorem exists_glances_of_retouches {d d' : Document}
    (h : Relation.ReflTransGen (Retouches Itinerary.shape) d d') {v : Itinerary.shape.Value}
    (hv : Itinerary.shape.valueOf? d = some v) :
    ∃ v', Itinerary.shape.valueOf? d' = some v' ∧
      (Format.ofValue v : Itinerary).legs.map Glance.of =
        (Format.ofValue v' : Itinerary).legs.map Glance.of := by
  induction h with
  | refl => exact ⟨v, hv, rfl⟩
  | tail _ hstep ih =>
    obtain ⟨w, hw, hglances⟩ := ih
    obtain ⟨v', hv', halike⟩ := hstep.exists_value hw
    exact ⟨v', hv', hglances.trans (glances_of_alike (halike ""))⟩

/-! ## A line with nothing in it -/

/-- A leg of an itinerary that had no line, or `null` for it, gets one with nothing in it. -/
inductive GivesLine (place : Nat) : Document → Document → Prop
  | leg {fields legFields : Fields} {given : Option Document} {e e' d d' : Document}
      (before behind : List Document) (hplace : before.length = place)
      (hfields : Itinerary.shape.fields? = some fields)
      (hlegFields : Leg.shape.fields? = some legFields)
      (hgiven : given = none ∨ given = some .null)
      (hline : Exchanges legFields "line" given (some (.object [])) e e')
      (hlegs : Exchanges fields "legs" (some (.list (before ++ e :: behind)))
        (some (.list (before ++ e' :: behind))) d d') : GivesLine place d d'

theorem exists_onUnknownLine {fields : Fields} (hfields : Leg.shape.fields? = some fields)
    {given : Option Document} (hgiven : given = none ∨ given = some .null) {d d' : Document}
    (h : Exchanges fields "line" given (some (.object [])) d d') {v : Leg.shape.Value}
    (hv : Leg.shape.valueOf? d = some v) :
    ∃ v', Leg.shape.valueOf? d' = some v' ∧ (Format.ofValue (α := Leg) v).line = none ∧
      Format.ofValue (α := Leg) v' = onUnknownLine (Format.ofValue (α := Leg) v) := by
  cases hfields
  obtain ⟨put, line, hopening, hline, rfl, hput⟩ := h.puts (.optional Line.shape) rfl hv
  have hnone : line = none := by
    rcases hgiven with rfl | rfl <;> exact (Option.some.inj hline).symm
  have hempty : (Shape.optional Line.shape).valueOfGiven? (some (.object [])) =
      some (some Line.shape.blank) := rfl
  obtain ⟨mode, putLine, hbehind, rfl⟩ := hopening.exists_behind (by decide)
  obtain ⟨call, rfl⟩ := hbehind.exists_first
  subst hnone
  exact ⟨_, hput _ hempty, rfl, rfl⟩

/-- What an itinerary is, before and after one of its legs is given a line. -/
theorem GivesLine.exists_legs {place : Nat} {d d' : Document} (h : GivesLine place d d')
    {v : Itinerary.shape.Value} (hv : Itinerary.shape.valueOf? d = some v) :
    ∃ (v' : Itinerary.shape.Value) (before : List Leg) (leg : Leg) (behind : List Leg),
      Itinerary.shape.valueOf? d' = some v' ∧ before.length = place ∧ leg.line = none ∧
      Format.ofValue (α := Itinerary) v = ⟨before ++ leg :: behind⟩ ∧
      Format.ofValue (α := Itinerary) v' = ⟨before ++ onUnknownLine leg :: behind⟩ := by
  obtain ⟨before, behind, hplace, hfields, hlegFields, hgiven, hline, hlegs⟩ := h
  cases hfields
  obtain ⟨put, legs, hopening, hvalues, rfl, hput⟩ := hlegs.puts (.list Leg.shape) rfl hv
  obtain ⟨front, w, back, hfront, hw, hback, rfl⟩ := mapM_middle.mp hvalues
  obtain ⟨w', hw', hnone, heq⟩ := exists_onUnknownLine hlegFields hgiven hline hw
  have hlegs' : (Shape.list Leg.shape).valueOf? (.list (before ++ _ :: behind)) =
      some (front ++ w' :: back) := mapM_middle.mpr ⟨front, w', back, hfront, hw', hback, rfl⟩
  obtain ⟨_, rfl⟩ := hopening.exists_first
  refine ⟨_, front.map Format.ofValue, Format.ofValue w, back.map Format.ofValue,
    hput _ hlegs', ?_, hnone, ?_, ?_⟩
  · rw [List.length_map, (length_of_mapM hfront).1, hplace]
  · exact congrArg Itinerary.mk List.map_append
  · rw [← heq]
    exact congrArg Itinerary.mk List.map_append

/-! ## The page -/

/-- The page of an itinerary shows the glances of its legs and nothing else. So unseen changes of a
text leave the page as it is, and a line with nothing in it puts a link in the place of its leg's
dash, without a change anywhere else. -/
theorem itineraryPage_shows_glances :
    (∀ (explorer : Explorer) (itinerary itinerary' : Itinerary),
      itinerary.legs.map Glance.of = itinerary'.legs.map Glance.of →
      (itineraryPage ⟨explorer, itinerary⟩).render =
        (itineraryPage ⟨explorer, itinerary'⟩).render) ∧
    (∀ (text text' : String) (d d' : Document) (itinerary : Itinerary), Holds text d →
      Holds text' d' → Relation.ReflTransGen (Retouches Itinerary.shape) d d' →
      parse Itinerary text = .ok itinerary →
      ∃ itinerary', parse Itinerary text' = .ok itinerary' ∧ ∀ explorer,
        (itineraryPage ⟨explorer, itinerary⟩).render =
          (itineraryPage ⟨explorer, itinerary'⟩).render) ∧
    ∀ (text text' : String) (d d' : Document) (place : Nat) (itinerary : Itinerary),
      Holds text d → Holds text' d' → GivesLine place d d' →
      parse Itinerary text = .ok itinerary →
      ∃ (itinerary' : Itinerary) (before : List Leg) (leg : Leg) (behind : List Leg),
        parse Itinerary text' = .ok itinerary' ∧ before.length = place ∧ leg.line = none ∧
        itinerary.legs = before ++ leg :: behind ∧
        itinerary'.legs = before ++ { leg with line := some {} } :: behind ∧
        ∀ explorer, ∃ opening closing : List Char,
          (itineraryPage ⟨explorer, itinerary⟩).render = String.ofList
            (opening ++ rowsText explorer before ++
              (rowOpening leg ++ dashText ++ rowClosing leg) ++
              rowsText explorer behind ++ closing) ∧
          (itineraryPage ⟨explorer, itinerary'⟩).render = String.ofList
            (opening ++ rowsText explorer before ++
              (rowOpening leg ++ unknownLineText explorer leg ++ rowClosing leg) ++
              rowsText explorer behind ++ closing) := by
  have hglances : ∀ (explorer : Explorer) (itinerary itinerary' : Itinerary),
      itinerary.legs.map Glance.of = itinerary'.legs.map Glance.of →
      (itineraryPage ⟨explorer, itinerary⟩).render =
        (itineraryPage ⟨explorer, itinerary'⟩).render :=
    fun explorer _ _ h => congrArg Html.Node.render (itineraryPage_of_glances explorer h)
  refine ⟨hglances, ?_, ?_⟩
  · intro text text' d d' itinerary hd hd' hretouch hparse
    obtain ⟨v, hv, rfl⟩ := (parse_eq_ok_iff hd).mp hparse
    obtain ⟨v', hv', hsame⟩ := exists_glances_of_retouches hretouch hv
    exact ⟨_, (parse_eq_ok_iff hd').mpr ⟨v', hv', rfl⟩, fun explorer => hglances explorer _ _ hsame⟩
  · intro text text' d d' place itinerary hd hd' hline hparse
    obtain ⟨v, hv, rfl⟩ := (parse_eq_ok_iff hd).mp hparse
    obtain ⟨v', before, leg, behind, hv', hplace, hnone, heq, heq'⟩ := hline.exists_legs hv
    refine ⟨_, before, leg, behind, (parse_eq_ok_iff hd').mpr ⟨v', hv', heq'⟩, hplace, hnone,
      congrArg Itinerary.legs heq, rfl, fun explorer => ?_⟩
    obtain ⟨opening, closing, hpage, hpage'⟩ := exists_page_around explorer hnone before behind
    refine ⟨opening, closing, ?_, congrArg String.ofList hpage'⟩
    rw [heq]
    exact congrArg String.ofList hpage

/-- An object with one member. -/
def soleMember (name : String) (d : Document) : Document := .object [(unitsOfText name, d)]

theorem exchanges_soleMember (fields : Fields) (name : String) (d d' : Document) :
    Exchanges fields name (some d) (some d') (soleMember name d) (soleMember name d') :=
  .member [] [] (some d) (some d') (textOf?_unitsOfText name) (List.forall_mem_nil _)

theorem exchanges_soleMember_none (fields : Fields) (name : String) (d : Document) :
    Exchanges fields name (some d) none (soleMember name d) (.object []) :=
  .member [] [] (some d) none (textOf?_unitsOfText name) (List.forall_mem_nil _)

/-- The text of an itinerary of one leg, from that of the leg's line. -/
def oneLegText (line : String) : String :=
  objectText (["legs"].zip [listText [objectText (["line"].zip [line])]])

def oneLegDocument (line : Document) : Document :=
  soleMember "legs" (.list [soleMember "line" line])

theorem holds_oneLeg {text : String} {line : Document} (h : Holds text line) :
    Holds (oneLegText text) (oneLegDocument line) := by
  have hleg : Holds (objectText (["line"].zip [text])) (soleMember "line" line) :=
    holds_objectText (.cons h .nil) (by decide)
  exact holds_objectText (.cons (holds_listText (.cons hleg .nil)) .nil) (by decide)

theorem holds_null : Holds "null" .null := ⟨_, [], .nil _, .null, .nil _⟩

theorem holds_empty : Holds "\x7b\x7d" (.object []) :=
  ⟨_, [], .nil _, .object (.nil (.nil _)), .nil _⟩

theorem retouches_oneLeg {d d' : Document} (h : Retouches Line.shape d d') :
    Retouches Itinerary.shape (oneLegDocument d) (oneLegDocument d') := by
  have hleg : Retouches Leg.shape (soleMember "line" d) (soleMember "line" d') :=
    .inside (.optional Line.shape) rfl (.optional h) (exchanges_soleMember _ _ _ _)
  exact .inside (.list Leg.shape) rfl (.item [] [] hleg) (exchanges_soleMember _ _ _ _)

/-- A line whose branding is only a text colour. -/
def darkText : String :=
  objectText (["presentation"].zip [objectText (["textColour"].zip ["\"000\""])])

def darkLine : Document :=
  soleMember "presentation" (soleMember "textColour" (.text (unitsOfText "000")))

/-- A line whose branding is `null`. -/
def plainText : String := objectText (["presentation"].zip ["null"])

def plainLine : Document := soleMember "presentation" .null

theorem holds_dark : Holds darkText darkLine := by
  have hcolour : Holds "\"000\"" (.text (unitsOfText "000")) :=
    holds_quoted (by decide) (by decide)
  have hbranding : Holds (objectText (["textColour"].zip ["\"000\""]))
      (soleMember "textColour" (.text (unitsOfText "000"))) :=
    holds_objectText (.cons hcolour .nil) (by decide)
  exact holds_objectText (.cons hbranding .nil) (by decide)

theorem holds_plainText : Holds plainText plainLine :=
  holds_objectText (.cons holds_null .nil) (by decide)

/-- The text colour goes, and then the branding in which there is nothing any more. -/
theorem retouches_dark :
    Relation.ReflTransGen (Retouches Line.shape) darkLine plainLine := by
  have hhollow : "presentation" ∈ hollowNames := by decide
  have hcolour : Retouches Presentation.shape
      (soleMember "textColour" (.text (unitsOfText "000"))) (.object []) := by
    have hvalue : optionalText.valueOfGiven? (some (.text (unitsOfText "000"))) =
        some (some "000") := congrArg (Option.map some) (textOf?_unitsOfText "000")
    exact .here rfl (.textColour _ (Option.isSome_of_eq_some hvalue)) (.textColour none rfl)
      (exchanges_soleMember_none _ _ _)
  have hfirst : Retouches Line.shape darkLine (soleMember "presentation" (.object [])) :=
    .inside (.optional Presentation.shape) rfl (.optional hcolour) (exchanges_soleMember _ _ _ _)
  have hsecond : Retouches Line.shape (soleMember "presentation" (.object [])) plainLine :=
    .here rfl (.empty hhollow) (.null hhollow) (exchanges_soleMember _ _ _ _)
  exact .tail (.single hfirst) hsecond

theorem retouches_dark_oneLeg : Relation.ReflTransGen (Retouches Itinerary.shape)
    (oneLegDocument darkLine) (oneLegDocument plainLine) :=
  retouches_dark.lift oneLegDocument fun _ _ => retouches_oneLeg

theorem parse_dark : parse Itinerary (oneLegText darkText) =
    .ok ⟨[{ line := some { presentation := some { textColour := some "000" } } }]⟩ := by rfl

theorem parse_noLine : parse Itinerary (oneLegText "null") = .ok ⟨[{}]⟩ := by rfl

theorem givesLine_oneLeg :
    GivesLine 0 (oneLegDocument .null) (oneLegDocument (.object [])) :=
  .leg [] [] rfl rfl rfl (.inr rfl) (exchanges_soleMember _ _ _ _) (exchanges_soleMember _ _ _ _)

/-- A text colour makes no difference, also if the whole branding goes with it. A line with nothing
in it makes one, and only in its row. -/
theorem glances_of_oneLeg :
    let explorer : Explorer := ⟨some "http://otp.example/graphiql?flavor=transmodel"⟩
    let dark : Itinerary :=
      ⟨[{ line := some { presentation := some { textColour := some "000" } } }]⟩
    (itineraryPage ⟨explorer, dark⟩).render =
      (itineraryPage ⟨explorer, ⟨[{ line := some {} }]⟩⟩).render ∧
    (∃ itinerary', parse Itinerary (oneLegText plainText) = .ok itinerary' ∧
      (itineraryPage ⟨explorer, dark⟩).render = (itineraryPage ⟨explorer, itinerary'⟩).render) ∧
    parse Itinerary (oneLegText "\x7b\x7d") = .ok ⟨[{ line := some {} }]⟩ ∧
    ∃ opening closing : List Char,
      (itineraryPage ⟨explorer, ⟨[{}]⟩⟩).render = String.ofList
        (opening ++ (rowOpening {} ++ dashText ++ rowClosing {}) ++ closing) ∧
      (itineraryPage ⟨explorer, ⟨[{ line := some {} }]⟩⟩).render = String.ofList
        (opening ++ (rowOpening {} ++ unknownLineText explorer {} ++ rowClosing {}) ++
          closing) := by
  intro explorer dark
  obtain ⟨hglances, hretouch, hline⟩ := itineraryPage_shows_glances
  refine ⟨hglances explorer dark _ rfl, ?_, ?_⟩
  · obtain ⟨itinerary', hparse, hpage⟩ := hretouch _ _ _ _ dark (holds_oneLeg holds_dark)
      (holds_oneLeg holds_plainText) retouches_dark_oneLeg parse_dark
    exact ⟨itinerary', hparse, hpage explorer⟩
  · obtain ⟨itinerary', before, leg, behind, hparse, hplace, hnone, hlegs, hlegs', hpages⟩ :=
      hline _ _ _ _ 0 ⟨[{}]⟩ (holds_oneLeg holds_null) (holds_oneLeg holds_empty)
        givesLine_oneLeg parse_noLine
    obtain rfl := List.eq_nil_of_length_eq_zero hplace
    obtain ⟨rfl, rfl⟩ : {} = leg ∧ [] = behind := List.cons.inj hlegs
    obtain rfl : itinerary' = ⟨[{ line := some {} }]⟩ := congrArg Itinerary.mk hlegs'
    obtain ⟨opening, closing, hpage, hpage'⟩ := hpages explorer
    have hnoRows : rowsText explorer [] = [] := rfl
    rw [hnoRows, List.append_nil, List.append_nil] at hpage hpage'
    exact ⟨hparse, opening, closing, hpage, hpage'⟩

end LegBoard.Board
