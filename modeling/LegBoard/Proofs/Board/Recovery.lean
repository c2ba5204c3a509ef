import LegBoard.Proofs.Board.PageTokens
import LegBoard.Proofs.Html.Contents

/-!
# Badges, links and sections are recovered

The contents of a written badge, of a link and of a block of the page name every string that went
into them, so two of them that are written alike were made from the same strings, except that an
empty text is as good as a blank. No quote, angle bracket or ampersand in a string can take the
place of the marks that are written around it.
-/
namespace LegBoard.Board

open LegBoard.Html (Attribute Node Tag Contents contents contentsOf_start contentsOf_finish
  contentsOf_marker contentsOf_text contentsOf_nil renderText_eq shownText)
open LegBoard.Transit (Leg)

/-! ## Contents -/

theorem contents_view (badge : Badge) :
    contents badge.view.render =
      { tags := [.start "a" [⟨"href", badge.href⟩, ⟨"target", "_blank"⟩, ⟨"rel", "noreferrer"⟩,
          ⟨"title", badge.title⟩, ⟨"style", badge.style ++ ";"⟩], .finish "a"]
        texts := ["", shownText badge.label, ""] } := by
  rw [contents, Node.document_render (isPlain_view badge)]
  simp only [Badge.view, Node.tokens, Node.tokensAll, Node.isText, Bool.false_and,
    Bool.false_eq_true, ite_false, List.nil_append, List.append_nil, contentsOf_start,
    contentsOf_text, contentsOf_finish, contentsOf_nil, Contents.cons, Contents.headed]
  simp only [Badge.attributes, List.map_cons, List.map_nil, List.tail_cons, Attribute.shown_style]
  simp (disch := decide) only [Attribute.shown_of_ne]

/-- The arrow behind the label is a text of its own. -/
theorem contents_externalLink (href label : String) :
    contents (externalLink href label).render =
      { tags := [.start "a" [⟨"href", href⟩, ⟨"target", "_blank"⟩, ⟨"rel", "noreferrer"⟩,
          ⟨"style", "padding: 3px 8px; border: 1px dashed #999; text-decoration: none; " ++
            "display: inline-block;" ++ ";"⟩], .marker, .finish "a"]
        texts := ["", shownText label, " ↗", ""] } := by
  rw [contents, Node.document_render (isPlain_externalLink href label)]
  simp only [externalLink, Node.tokens, Node.tokensAll, Node.isText, Bool.false_and,
    Bool.and_self, Bool.false_eq_true, ite_false, ite_true, List.nil_append, List.append_nil,
    List.append_assoc, List.cons_append, contentsOf_start, contentsOf_text, contentsOf_marker,
    contentsOf_finish, contentsOf_nil, Contents.cons, Contents.headed]
  simp only [List.map_cons, List.map_nil, List.tail_cons, Attribute.shown_style]
  simp (disch := decide) only [Attribute.shown_of_ne, shownText, if_neg]

theorem contents_titledSection (id title text : String) :
    contents (titledSection id title (.text text)).render =
      { tags := [.start "section" [⟨"id", id⟩, ⟨"style", "margin-bottom: 2rem;" ++ ";"⟩],
          .start "h2" [⟨"style", "text-transform: uppercase; font-size: 1rem;" ++ ";"⟩],
          .start "a" [⟨"href", "#" ++ id⟩,
            ⟨"style", "margin-left: 0.25rem; text-decoration: none;" ++ ";"⟩],
          .finish "a", .finish "h2",
          .start "div" [⟨"style", "padding-left: 1rem; border-left: 1px dashed #999;" ++ ";"⟩],
          .finish "div", .finish "section"]
        texts := ["", "", shownText title, " §", "", "", shownText text, "", ""] } := by
  rw [contents, Node.document_render (isPlain_titledSection id title rfl)]
  simp only [titledSection, blockTitle, Node.tokens, Node.tokensAll, Node.isText, Bool.false_and,
    Bool.and_false, Bool.false_eq_true, ite_false, List.nil_append, List.append_nil,
    List.append_assoc, List.cons_append, contentsOf_start, contentsOf_text, contentsOf_finish,
    contentsOf_nil, Contents.cons, Contents.headed]
  simp only [List.map_cons, List.map_nil, List.tail_cons, Attribute.shown_style]
  simp (disch := decide) only [Attribute.shown_of_ne, shownText, if_neg]

/-! ## What is written alike -/

theorem render_view_inj {b b' : Badge} :
    b.view.render = b'.view.render ↔ b.href = b'.href ∧ b.title = b'.title ∧
      shownText b.label = shownText b'.label ∧ b.style = b'.style := by
  constructor
  · intro h
    have hcontents := congrArg contents h
    rw [contents_view, contents_view] at hcontents
    injection hcontents with htags htexts
    simp only [List.cons.injEq, Tag.start.injEq, Attribute.mk.injEq, String.append_left_inj,
      true_and, and_true] at htags htexts
    obtain ⟨hhref, htitle, hstyle⟩ := htags
    exact ⟨hhref, htitle, htexts, hstyle⟩
  · rintro ⟨hhref, htitle, hlabel, hstyle⟩
    simp only [Badge.view, Badge.attributes, Node.render, Node.write, Node.writeAll, Node.isText,
      renderText_eq, hhref, htitle, hlabel, hstyle]

theorem render_externalLink_inj {href label href' label' : String} :
    (externalLink href label).render = (externalLink href' label').render ↔
      href = href' ∧ shownText label = shownText label' := by
  constructor
  · intro h
    have hcontents := congrArg contents h
    rw [contents_externalLink, contents_externalLink] at hcontents
    injection hcontents with htags htexts
    simp only [List.cons.injEq, Tag.start.injEq, Attribute.mk.injEq, true_and, and_true]
      at htags htexts
    exact ⟨htags, htexts⟩
  · rintro ⟨rfl, hlabel⟩
    simp only [externalLink, Node.render, Node.write, Node.writeAll, Node.isText, Bool.false_and,
      Bool.and_self, Bool.false_eq_true, ite_false, ite_true, renderText_eq, hlabel]

theorem render_titledSection_inj {id title text id' title' text' : String} :
    (titledSection id title (.text text)).render =
        (titledSection id' title' (.text text')).render ↔
      id = id' ∧ shownText title = shownText title' ∧ shownText text = shownText text' := by
  constructor
  · intro h
    have hcontents := congrArg contents h
    rw [contents_titledSection, contents_titledSection] at hcontents
    injection hcontents with htags htexts
    simp only [List.cons.injEq, Tag.start.injEq, Attribute.mk.injEq, true_and, and_true]
      at htags htexts
    exact ⟨htags.1, htexts⟩
  · rintro ⟨rfl, htitle, htext⟩
    simp only [titledSection, blockTitle, Node.render, Node.write, Node.writeAll, Node.isText,
      Bool.false_and, Bool.and_false, Bool.false_eq_true, ite_false, renderText_eq, htitle, htext]

/-- Two badges, links or blocks are written alike exactly if they were made from the same strings,
where a text counts as it is shown. A reader of the badge of any leg finds its four strings, the
style with one more semicolon and the label as it is shown. -/
theorem render_recovered :
    (∀ b b' : Badge, b.view.render = b'.view.render ↔ b.href = b'.href ∧ b.title = b'.title ∧
      shownText b.label = shownText b'.label ∧ b.style = b'.style) ∧
    (∀ href label href' label' : String,
      (externalLink href label).render = (externalLink href' label').render ↔
        href = href' ∧ shownText label = shownText label') ∧
    (∀ id title text id' title' text' : String,
      (titledSection id title (.text text)).render =
          (titledSection id' title' (.text text')).render ↔
        id = id' ∧ shownText title = shownText title' ∧ shownText text = shownText text') ∧
    ∀ (explorer : Explorer) (leg : Leg),
      let badge := Badge.ofLeg explorer leg
      contents badge.view.render =
        { tags := [.start "a" [⟨"href", badge.href⟩, ⟨"target", "_blank"⟩,
            ⟨"rel", "noreferrer"⟩, ⟨"title", badge.title⟩, ⟨"style", badge.style ++ ";"⟩],
            .finish "a"]
          texts := ["", shownText badge.label, ""] } :=
  ⟨fun _ _ => render_view_inj, fun _ _ _ _ => render_externalLink_inj,
    fun _ _ _ _ _ _ => render_titledSection_inj, fun _ _ => contents_view _⟩

/-- The empty label is not told from a blank, but a label that looks like a reference is told from
the character that the reference stands for. -/
example : (externalLink "u" "").render = (externalLink "u" " ").render ∧
    (externalLink "u" "&lt;").render ≠ (externalLink "u" "<").render := by decide +kernel

end LegBoard.Board
