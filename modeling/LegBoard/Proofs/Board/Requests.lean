import LegBoard.Board.Route
import LegBoard.Proofs.Text.Runs

/-!
# Requests by path

A request of the site itself is a path of plain segments, with or without a query and a fragment.
Its dot segments are resolved from left to right on a stack of the names found so far, and the page
is shown exactly if no name is left. What stands behind the path and what the page would show make
no difference. Requests with escapes, empty segments or a host are outside of this.
-/
namespace LegBoard.Board

/-- A letter, a digit, a hyphen or an underscore. -/
def isNameChar (c : Char) : Bool := c.isAlphanum || c == '-' || c == '_'

/-- A segment of a path: a dot, two dots or a name. -/
inductive Segment where
  | here
  | up
  | name (cs : List Char) (hne : cs ≠ []) (hplain : ∀ c ∈ cs, isNameChar c = true)

namespace Segment

def chars : Segment → List Char
  | .here => ['.']
  | .up => ['.', '.']
  | .name cs _ _ => cs

def isName : Segment → Bool
  | .name .. => true
  | _ => false

/-- Where a segment leads to from the names found so far, the last of which comes first. Two dots
lead from the root to the root. -/
def walk (found : List (List Char)) : Segment → List (List Char)
  | .here => found
  | .up => found.tail
  | .name cs _ _ => cs :: found

/-- The names left of a path, the last of which comes first. -/
def left (segments : List Segment) : List (List Char) := segments.foldl walk []

end Segment

/-- A path of segments, or the root alone, with what may stand behind it. -/
structure Request where
  segments : List Segment
  /-- Whether a slash stands behind the last segment. -/
  closed : Bool
  query : Option String
  fragment : Option String
  /-- The root is written as a slash. -/
  root : segments = [] → closed = true

namespace Request

/-- What stands between the slashes of a path, from behind the first one. -/
def pieces (request : Request) : List (List Char) :=
  request.segments.map Segment.chars ++ if request.closed then [[]] else []

def path (request : Request) : List Char := request.pieces.flatMap ('/' :: ·)

/-- The query and the fragment with their marks. -/
def behind (request : Request) : List Char :=
  request.query.elim [] ('?' :: ·.toList) ++ request.fragment.elim [] ('#' :: ·.toList)

def url (request : Request) : String := String.ofList (request.path ++ request.behind)

end Request

open RequestUrl (isPadding clean splitScheme withoutQuery rawPath path? resolve dots)

/-! ## Characters of a path -/

/-- A character that a path may have between its slashes. -/
def IsPathChar (c : Char) : Prop := isNameChar c = true ∨ c = '.'

theorem IsPathChar.not_padding {c : Char} (h : IsPathChar c) : isPadding c = false := by
  have hpadding : ∀ n ≤ 0x20, isNameChar (Char.ofNat n) = false ∧ Char.ofNat n ≠ '.' := by decide
  rw [Bool.eq_false_iff]
  intro hc
  obtain ⟨hname, hdot⟩ := hpadding c.toNat (of_decide_eq_true hc)
  rw [Char.ofNat_toNat] at hname hdot
  obtain h | h := h
  · simp [hname] at h
  · exact hdot h

theorem IsPathChar.ne {c mark : Char} (h : IsPathChar c) (hmark : isNameChar mark = false)
    (hdot : mark ≠ '.') : c ≠ mark := by
  rintro rfl
  obtain h | h := h
  · simp [hmark] at h
  · exact hdot h

theorem IsPathChar.not_slash {c : Char} (h : IsPathChar c) : Scheme.site.isSlash c = false := by
  have hslash : c ≠ '/' := h.ne (by decide) (by decide)
  have hback : c ≠ '\\' := h.ne (by decide) (by decide)
  simp [Scheme.isSlash, hslash, hback]

theorem isPathChar_of_mem {segment : Segment} {c : Char} (h : c ∈ segment.chars) :
    IsPathChar c := by
  cases segment with
  | here | up => exact .inr (by simpa [Segment.chars] using h)
  | name cs _ hplain => exact .inl (hplain c h)

theorem isPathChar_of_mem_pieces {request : Request} {piece : List Char}
    (hpiece : piece ∈ request.pieces) {c : Char} (hc : c ∈ piece) : IsPathChar c := by
  obtain hpiece | hpiece := List.mem_append.mp hpiece
  · obtain ⟨segment, -, rfl⟩ := List.mem_map.mp hpiece
    exact isPathChar_of_mem hc
  · split at hpiece
    · rw [List.mem_singleton.mp hpiece] at hc
      cases hc
    · cases hpiece

theorem mem_path {request : Request} {c : Char} (h : c ∈ request.path) :
    c = '/' ∨ IsPathChar c := by
  obtain ⟨piece, hpiece, hc⟩ := List.mem_flatMap.mp h
  exact (List.mem_cons.mp hc).imp_right (isPathChar_of_mem_pieces hpiece)

/-! ## From the URL to its path -/

theorem dropWhile_reverse_append {p : Char → Bool} {solid : List Char}
    (hsolid : ∀ c ∈ solid, p c = false) (cs : List Char) :
    ∃ kept, ((solid ++ cs).reverse.dropWhile p).reverse = solid ++ kept ∧
      (cs = [] → kept = []) := by
  have hstop : solid.reverse.dropWhile p = solid.reverse := by
    cases hlast : solid.reverse with
    | nil => rfl
    | cons c rest =>
      have hc : c ∈ solid := List.mem_reverse.mp (hlast ▸ List.mem_cons_self)
      exact List.dropWhile_cons_of_neg (Bool.eq_false_iff.mp (hsolid c hc))
  refine ⟨(cs.reverse.dropWhile p).reverse, ?_, fun hcs => by rw [hcs]; rfl⟩
  rw [List.reverse_append, List.dropWhile_append, hstop]
  split
  · next hempty =>
    rw [List.isEmpty_iff.mp hempty, List.reverse_reverse, List.reverse_nil, List.append_nil]
  · rw [List.reverse_append, List.reverse_reverse]

/-- What has no padding in it stays at the start of a URL. -/
theorem clean_append {solid : List Char} (hne : solid ≠ [])
    (hsolid : ∀ c ∈ solid, isPadding c = false) (cs : List Char) :
    ∃ kept, clean (solid ++ cs) = solid ++ kept ∧ (cs = [] → kept = []) := by
  obtain ⟨kept, hkept, hnil⟩ := dropWhile_reverse_append hsolid cs
  have hstart : (solid ++ cs).dropWhile isPadding = solid ++ cs := by
    obtain ⟨c, rest, rfl⟩ := List.exists_cons_of_ne_nil hne
    exact List.dropWhile_cons_of_neg (Bool.eq_false_iff.mp (hsolid c List.mem_cons_self))
  have hfilter : solid.filter (fun c => !(c == '\t' || c == '\n' || c == '\r')) = solid := by
    rw [List.filter_eq_self]
    intro c hc
    have hpadding := hsolid c hc
    rw [Bool.not_eq_true', Bool.eq_false_iff]
    intro hend
    simp only [Bool.or_eq_true, beq_iff_eq] at hend
    obtain (rfl | rfl) | rfl := hend <;> cases hpadding
  refine ⟨kept.filter fun c => !(c == '\t' || c == '\n' || c == '\r'), ?_, fun hcs => ?_⟩
  · rw [clean, hstart, hkept, List.filter_append, hfilter]
  · rw [hnil hcs, List.filter_nil]

theorem withoutQuery_clean {path behind : List Char} (hne : path ≠ [])
    (hpath : ∀ c ∈ path, c = '/' ∨ IsPathChar c)
    (hbehind : ∀ c ∈ behind.head?, c = '?' ∨ c = '#') :
    ∃ kept, clean (path ++ behind) = path ++ kept ∧ withoutQuery (path ++ kept) = path := by
  have hsolid : ∀ c ∈ path, isPadding c = false := by
    intro c hc
    obtain rfl | h := hpath c hc
    · decide
    · exact h.not_padding
  have hinside : ∀ c ∈ path, (!(c == '?' || c == '#')) = true := by
    intro c hc
    obtain rfl | h := hpath c hc
    · decide
    · have hquery : c ≠ '?' := h.ne (by decide) (by decide)
      have hfragment : c ≠ '#' := h.ne (by decide) (by decide)
      simp [hquery, hfragment]
  cases behind with
  | nil =>
    obtain ⟨kept, hclean, hnil⟩ := clean_append hne hsolid []
    obtain rfl := hnil rfl
    exact ⟨[], hclean, Text.takeWhile_append_stop hinside nofun⟩
  | cons mark rest =>
    -- The mark is no padding, so it stays where it is, whatever is dropped behind it.
    have hmark : mark = '?' ∨ mark = '#' := hbehind mark rfl
    have hwith : ∀ c ∈ path ++ [mark], isPadding c = false := by
      intro c hc
      obtain hc | hc := List.mem_append.mp hc
      · exact hsolid c hc
      · rw [List.mem_singleton.mp hc]
        obtain rfl | rfl := hmark <;> decide
    obtain ⟨kept, hclean, -⟩ := clean_append (by simp) hwith rest
    rw [List.append_assoc, List.append_assoc, List.singleton_append] at hclean
    refine ⟨mark :: kept, hclean, Text.takeWhile_append_stop hinside ?_⟩
    intro c hc
    cases hc
    obtain rfl | rfl := hmark <;> decide

theorem head_behind (request : Request) :
    ∀ c ∈ request.behind.head?, c = '?' ∨ c = '#' := by
  refine Text.head_append ?_ ?_
  · cases request.query with
    | none => nofun
    | some query => exact fun c hc => .inl (by cases hc; rfl)
  · cases request.fragment with
    | none => nofun
    | some fragment => exact fun c hc => .inr (by cases hc; rfl)

/-- A path is cut at its slashes into what stood between them. -/
theorem segments_pieces {p : Char → Bool} (hslash : p '/' = true) (pieces : List (List Char))
    {piece : List Char} (h : ∀ cs ∈ piece :: pieces, ∀ c ∈ cs, p c = false) :
    (piece ++ pieces.flatMap ('/' :: ·)).splitOnP p = piece :: pieces := by
  induction pieces generalizing piece with
  | nil =>
    rw [List.flatMap_nil, List.append_nil]
    exact List.splitOnP_eq_singleton (h piece List.mem_cons_self)
  | cons next pieces ih =>
    rw [List.flatMap_cons, List.cons_append,
      List.splitOnP_append_cons_of_forall_mem (h piece List.mem_cons_self) '/' hslash,
      ih fun cs hcs => h cs (List.mem_cons_of_mem _ hcs)]

theorem exists_pieces (request : Request) :
    ∃ piece pieces, request.pieces = piece :: pieces ∧ (piece = [] → pieces = []) := by
  unfold Request.pieces
  cases hsegments : request.segments with
  | nil => exact ⟨[], [], by rw [request.root hsegments]; rfl, fun _ => rfl⟩
  | cons segment segments =>
    refine ⟨segment.chars, _, rfl, fun hempty => ?_⟩
    cases segment with
    | here | up => cases hempty
    | name cs hne _ => exact absurd hempty hne

/-- The path of a request is read as its pieces, which are still unresolved. -/
theorem path?_url (request : Request) : path? request.url = some (resolve [] request.pieces) := by
  obtain ⟨piece, pieces, hpieces, hroot⟩ := exists_pieces request
  have hpath : request.path = '/' :: (piece ++ pieces.flatMap ('/' :: ·)) := by
    rw [Request.path, hpieces, List.flatMap_cons, List.cons_append]
  have hplain : ∀ cs ∈ piece :: pieces, ∀ c ∈ cs, Scheme.site.isSlash c = false := by
    intro cs hcs c hc
    rw [← hpieces] at hcs
    exact (isPathChar_of_mem_pieces hcs hc).not_slash
  have hsingle : ∀ c ∈ (piece ++ pieces.flatMap ('/' :: ·)).head?,
      Scheme.site.isSlash c = false := by
    cases piece with
    | nil =>
      rw [hroot rfl]
      nofun
    | cons d ds =>
      intro c hc
      cases hc
      exact hplain _ List.mem_cons_self _ List.mem_cons_self
  have hne : request.path ≠ [] := by
    rw [hpath]
    exact List.cons_ne_nil _ _
  obtain ⟨kept, hclean, hquery⟩ :=
    withoutQuery_clean hne (fun _ => mem_path) (head_behind request)
  have hscheme : splitScheme (request.path ++ kept) = (.site, request.path ++ kept) := by
    rw [hpath]
    rfl
  have hslashes : request.path.takeWhile Scheme.site.isSlash = ['/'] := by
    have hfirst : ∀ c ∈ ['/'], Scheme.site.isSlash c = true := List.forall_mem_singleton.mpr rfl
    rw [hpath]
    exact Text.takeWhile_append_stop hfirst hsingle
  have hraw : rawPath .site request.path = request.path := by
    rw [rawPath]
    simp only [hslashes]
    rfl
  rw [path?, Request.url, String.toList_ofList, hclean, hscheme]
  dsimp only
  rw [hquery, hraw, hpath]
  have hcut := segments_pieces (by decide) pieces hplain
  change some (resolve [] ((piece ++ pieces.flatMap ('/' :: ·)).splitOnP _)) = _
  rw [hcut, hpieces]

/-! ## Resolving the segments -/

theorem dots_name {cs : List Char} (h : ∀ c ∈ cs, isNameChar c = true) : dots cs = cs := by
  unfold dots
  split
  · cases h '%' List.mem_cons_self
  · cases h '.' List.mem_cons_self
  · rfl

theorem ne_dots_of_name {cs : List Char} (h : ∀ c ∈ cs, isNameChar c = true) :
    dots cs ≠ ['.'] ∧ dots cs ≠ ['.', '.'] := by
  rw [dots_name h]
  constructor
  · rintro rfl
    cases h '.' List.mem_cons_self
  · rintro rfl
    cases h '.' List.mem_cons_self

/-- A segment inside of a path leads on from what was found before it. -/
theorem resolve_cons (found : List (List Char)) (segment : Segment) {rest : List (List Char)}
    (h : rest ≠ []) : resolve found (segment.chars :: rest) = resolve (segment.walk found) rest := by
  cases segment with
  | here | up => simp [resolve, Segment.chars, Segment.walk, dots, h]
  | name cs _ hplain =>
    obtain ⟨hone, htwo⟩ := ne_dots_of_name hplain
    simp [resolve, Segment.chars, Segment.walk, hone, htwo]

/-- At the end of a path dots leave an empty segment behind. -/
theorem resolve_last (found : List (List Char)) (segment : Segment) :
    resolve found [segment.chars] =
      (segment.walk found).reverse ++ if segment.isName then [] else [[]] := by
  cases segment with
  | here | up => simp [resolve, Segment.chars, Segment.walk, Segment.isName, dots]
  | name cs _ hplain =>
    obtain ⟨hone, htwo⟩ := ne_dots_of_name hplain
    simp [resolve, Segment.chars, Segment.walk, Segment.isName, hone, htwo]

theorem resolve_closed (segments : List Segment) (found : List (List Char)) :
    resolve found (segments.map Segment.chars ++ [[]]) =
      (segments.foldl Segment.walk found).reverse ++ [[]] := by
  induction segments generalizing found with
  | nil => simp [resolve, dots]
  | cons segment segments ih =>
    rw [List.map_cons, List.cons_append, resolve_cons _ _ (by simp), ih, List.foldl_cons]

theorem resolve_open (segments : List Segment) (found : List (List Char)) (last : Segment) :
    resolve found ((segments ++ [last]).map Segment.chars) =
      ((segments ++ [last]).foldl Segment.walk found).reverse ++
        if last.isName then [] else [[]] := by
  induction segments generalizing found with
  | nil => exact resolve_last found last
  | cons segment segments ih =>
    rw [List.cons_append, List.map_cons, resolve_cons _ _ (by simp), ih, List.foldl_cons]

/-- What is resolved are the names left, and behind them an empty segment, unless the last one of
them ends the path. -/
theorem resolve_pieces (request : Request) :
    ∃ last, resolve [] request.pieces = (Segment.left request.segments).reverse ++ last ∧
      (last = [[]] ∨ last = [] ∧ Segment.left request.segments ≠ []) := by
  unfold Request.pieces Segment.left
  cases hclosed : request.closed with
  | true => exact ⟨[[]], resolve_closed _ _, .inl rfl⟩
  | false =>
    have hne : request.segments ≠ [] := by
      intro hnil
      rw [request.root hnil] at hclosed
      cases hclosed
    obtain ⟨segments, last, hsegments⟩ : ∃ segments last, request.segments = segments ++ [last] :=
      ⟨_, _, (List.dropLast_concat_getLast hne).symm⟩
    rw [hsegments, if_neg Bool.false_ne_true, List.append_nil]
    refine ⟨_, resolve_open segments [] last, ?_⟩
    cases last with
    | here | up => exact .inl rfl
    | name cs _ _ =>
      refine .inr ⟨rfl, ?_⟩
      rw [List.foldl_append]
      exact List.cons_ne_nil _ _

/-- No name that is left is empty. -/
theorem ne_nil_of_mem_foldl (segments : List Segment) {found : List (List Char)}
    (hfound : ∀ cs ∈ found, cs ≠ []) : ∀ cs ∈ segments.foldl Segment.walk found, cs ≠ [] := by
  induction segments generalizing found with
  | nil => exact hfound
  | cons segment segments ih =>
    refine ih ?_
    cases segment with
    | here => exact hfound
    | up => exact fun cs hcs => hfound cs (List.mem_of_mem_tail hcs)
    | name cs hne _ => exact List.forall_mem_cons.mpr ⟨hne, hfound⟩

theorem ofUrl_eq (request : Request) :
    Route.ofUrl request.url =
      if Segment.left request.segments = [] then .itinerary else .notFound := by
  obtain ⟨last, hresolve, hlast⟩ := resolve_pieces request
  have hnames : ∀ cs ∈ Segment.left request.segments, cs ≠ [] :=
    ne_nil_of_mem_foldl request.segments nofun
  rw [Route.ofUrl, path?_url, hresolve]
  by_cases hleft : Segment.left request.segments = []
  · rw [if_pos hleft, hleft]
    obtain rfl | ⟨-, hne⟩ := hlast
    · rfl
    · exact absurd hleft hne
  · rw [if_neg hleft]
    -- The first name found is not empty, so it is no end of a path.
    obtain ⟨name, names, hreverse⟩ :=
      List.exists_cons_of_ne_nil (List.reverse_ne_nil_iff.mpr hleft)
    have hmem : name ∈ Segment.left request.segments :=
      List.mem_reverse.mp (hreverse ▸ List.mem_cons_self)
    obtain ⟨c, cs, rfl⟩ := List.exists_cons_of_ne_nil (hnames name hmem)
    rw [hreverse]
    rfl

/-! ## Answers -/

theorem render_notFoundPage : notFoundPage.render = "<p>404 - Page not found</p>" := by decide

theorem render_itineraryPage_ne (settings : Settings) :
    (itineraryPage settings).render ≠ "<p>404 - Page not found</p>" := by
  intro h
  obtain ⟨page, hpage⟩ : ∃ page, (itineraryPage settings).write = '<' :: 'm' :: page := ⟨_, rfl⟩
  have hwrite := congrArg String.toList h
  rw [Html.Node.render, String.toList_ofList, hpage] at hwrite
  cases hwrite

/-- The page is shown exactly if nothing is left of the path, and a note otherwise. Requests with
the same segments are answered alike, whatever is behind their paths and on the page. -/
theorem respond_request (settings : Settings) (request : Request) :
    ((respond settings request.url).render = (itineraryPage settings).render ↔
      Segment.left request.segments = []) ∧
    (Segment.left request.segments ≠ [] →
      (respond settings request.url).render = "<p>404 - Page not found</p>") ∧
    ∀ (settings' : Settings) (request' : Request), request'.segments = request.segments →
      ((respond settings' request'.url).render = (itineraryPage settings').render ↔
        (respond settings request.url).render = (itineraryPage settings).render) := by
  have hshown : ∀ (settings : Settings) (request : Request), Segment.left request.segments = [] →
      (respond settings request.url).render = (itineraryPage settings).render := by
    intro settings request hleft
    rw [respond, ofUrl_eq, if_pos hleft]
  have hmissing : ∀ (settings : Settings) (request : Request), Segment.left request.segments ≠ [] →
      (respond settings request.url).render = "<p>404 - Page not found</p>" := by
    intro settings request hleft
    rw [respond, ofUrl_eq, if_neg hleft]
    exact render_notFoundPage
  have hiff : ∀ (settings : Settings) (request : Request),
      (respond settings request.url).render = (itineraryPage settings).render ↔
        Segment.left request.segments = [] := by
    intro settings request
    refine ⟨fun h => Decidable.byContradiction fun hleft => ?_, hshown settings request⟩
    rw [hmissing settings request hleft] at h
    exact render_itineraryPage_ne settings h.symm
  refine ⟨hiff settings request, hmissing settings request, fun settings' request' hsame => ?_⟩
  rw [hiff, hiff, hsame]

def nameOf (c : Char) (h : isNameChar c = true) : Segment :=
  .name [c] (List.cons_ne_nil _ _) (List.forall_mem_singleton.mpr h)

/-- A path that leads above the root and back to it, with a slash in its query, and one that leads
to another name behind the root. -/
theorem respond_of_dots :
    (respond {} "/a/./../../?x=/b#c d").render = (itineraryPage {}).render ∧
      (respond {} "/a/../b").render = "<p>404 - Page not found</p>" := by
  let upward : Request :=
    { segments := [nameOf 'a' rfl, .here, .up, .up]
      closed := true
      query := some "x=/b"
      fragment := some "c d"
      root := nofun }
  let sideways : Request :=
    { segments := [nameOf 'a' rfl, .up, nameOf 'b' rfl]
      closed := false
      query := none
      fragment := none
      root := nofun }
  have hupward : upward.url = "/a/./../../?x=/b#c d" := by decide
  have hsideways : sideways.url = "/a/../b" := by decide
  rw [← hupward, ← hsideways]
  exact ⟨(respond_request {} upward).1.mpr rfl, (respond_request {} sideways).2.1 nofun⟩

end LegBoard.Board
