import PicHost.Api.BatchDelete
import PicHost.Api.Upload
import PicHost.Lib.HtmlTag
import PicHost.Lib.MarkdownLink

/-!
# What share links read as

The name of an image is spliced into a Markdown image and, escaped, into an HTML element.
-/

namespace PicHost.ShareLinks

open KeyedTable Upload MarkdownLink

structure ImageLinks where
  url : String
  markdown : String
  html : String
  bbcode : String
deriving DecidableEq

def notFound : ApiError := { status := 404, key := "image.not_found" }

def internalError : ApiError := { status := 500, key := "common.internal_error" }

def getImageLinks (up : Bool) (user : AuthUser) (imageId : Uuid) (images : ImageTable) :
    Except ApiError ImageLinks :=
  if up then
    match (images.select fun r => r.id == imageId && r.userId == user.id).head? with
    | some r =>
      .ok {
        url := r.url
        markdown := markdownLink r.originalName r.url
        html := htmlLink r.originalName r.url
        bbcode := bbcodeLink r.url }
    | none => .error notFound
  else .error internalError

def linksOf (result : UploadResult) : ImageLinks :=
  ⟨result.url, result.markdown, result.html, result.bbcode⟩

/-- The answer to the upload and the one to a request for links have the links of the result. -/
structure SameLinks (r : Image) (result : UploadResult) : Prop where
  built : ∀ (deps : Deps) (ctx : UploadCtx) (config : UserStorageConfig) (inp : Upload.Input)
    (id : Uuid) (publicKey : String), ctx.fileName = r.originalName →
      linksOf (buildResult deps ctx config inp id publicKey r.url) = linksOf result
  requested : ∀ (user : AuthUser) (images : ImageTable), r ∈ images.rows → r.userId = user.id →
    getImageLinks true user r.id images = .ok (linksOf result)

variable (refs : HtmlTag.References) (m : Renderer) (r : Image)

/-- The links of an image are the same from all three builders, the HTML is one element with the
source and the name, and the Markdown is one image with the destination and the name. -/
def Safe : Prop :=
  ∀ configs : ConfigTable,
    SameLinks r (.fromRow (r.joinConfig configs)) ∧
    HtmlTag.single refs (UploadResult.fromRow (r.joinConfig configs)).html.toList =
      some ⟨"img".toList, [("src".toList, r.url.toList), ("alt".toList, r.originalName.toList)],
        true⟩ ∧
    IsImage m (UploadResult.fromRow (r.joinConfig configs)).markdown.toList
      r.originalName.toList r.url.toList

/-- The name between the brackets of an image with the address. -/
def imageText : List Char := opening ++ (r.originalName.toList ++ closing r.url.toList)

/-- The name has no carriage return or null character, does not end the paragraph, and nothing in
it is markup. -/
def PlainName : Prop :=
  '\r' ∉ r.originalName.toList ∧ '\x00' ∉ r.originalName.toList ∧
    m.paragraph (imageText r) = true ∧
    literalFrom m (imageText r) (closing r.url.toList) 0 r.originalName.toList = true

variable {refs m r}

theorem sameLinks (configs : ConfigTable) : SameLinks r (.fromRow (r.joinConfig configs)) where
  built deps ctx config inp id publicKey hname := by
    show ImageLinks.mk r.url (markdownLink ctx.fileName r.url) (htmlLink ctx.fileName r.url) _ = _
    rw [hname]
    rfl
  requested user images hr howner := by
    have hhead := Table.select_head?_of_unique (t := images) hr
      (p := fun q => q.id == r.id && q.userId == user.id) (by simpa using howner) fun q hq h => by
        simp only [Bool.and_eq_true, beq_iff_eq] at h
        exact ImageTable.eq_of_id hq hr h.1
    rw [getImageLinks, if_pos rfl, hhead]
    rfl

theorem toList_htmlEscape (s : String) : (htmlEscape s).toList = HtmlTag.escape s.toList := by
  rw [htmlEscape, String.toList_join, HtmlTag.escape, List.flatMap_map]
  apply List.flatMap_congr
  intro c _
  unfold HtmlTag.escapeChar
  split_ifs
  · rfl
  · rfl
  · rfl
  · rfl
  · exact String.toList_singleton c

theorem toList_htmlLink (name url : String) : (htmlLink name url).toList =
    "<img src=\"".toList ++ (url.toList ++ ("\" alt=\"".toList ++
      (HtmlTag.escape name.toList ++ "\" />".toList))) := by
  simp only [htmlLink, String.toList_append, toList_htmlEscape, List.append_assoc]

theorem toList_markdownLink (name url : String) : (markdownLink name url).toList =
    opening ++ (name.toList ++ closing url.toList) := by
  simp [markdownLink, opening, closing]

/-- A plain address has none of the characters that mean something in an attribute. -/
theorem plain_url {url : List Char} (hurl : ∀ c ∈ url, isUrlChar c = true) :
    ∀ c ∈ url, c ≠ '"' ∧ c ≠ '&' ∧ c ≠ '\r' ∧ c ≠ '\x00' := by
  intro c hc
  have h := hurl c hc
  refine ⟨?_, ?_, ?_, ?_⟩
  all_goals
    rintro rfl
    revert h
    decide

/-- The links of an image with a plain address are safe exactly when the name has no carriage
return or null character and reads as itself in Markdown. -/
theorem safe_iff (hurl : ∀ c ∈ r.url.toList, isUrlChar c = true) :
    Safe refs m r ↔ PlainName m r := by
  have hhtml : ∀ configs, HtmlTag.single refs
      (UploadResult.fromRow (r.joinConfig configs)).html.toList =
      some ⟨"img".toList, [("src".toList, r.url.toList), ("alt".toList,
        (HtmlTag.normalizeFrom false r.originalName.toList).map HtmlTag.replaceNull)], true⟩ := by
    intro configs
    show HtmlTag.single refs (htmlLink r.originalName r.url).toList = _
    rw [toList_htmlLink]
    exact HtmlTag.single_img (plain_url hurl) _
  have hmarkdown : ∀ configs, (UploadResult.fromRow (r.joinConfig configs)).markdown.toList =
      imageText r := fun configs => toList_markdownLink _ _
  have hname : ∀ configs, HtmlTag.single refs
      (UploadResult.fromRow (r.joinConfig configs)).html.toList =
      some ⟨"img".toList, [("src".toList, r.url.toList), ("alt".toList, r.originalName.toList)],
        true⟩ ↔ '\r' ∉ r.originalName.toList ∧ '\x00' ∉ r.originalName.toList := by
    intro configs
    rw [hhtml, ← HtmlTag.map_normalizeFrom_eq_self]
    simp
  constructor
  · intro h
    obtain ⟨-, hparsed, hparagraph, himage⟩ := h Table.empty
    rw [hmarkdown] at hparagraph himage
    obtain ⟨hreturn, hnull⟩ := (hname _).mp hparsed
    exact ⟨hreturn, hnull, hparagraph, (inlines_iff hurl _).mp himage⟩
  · rintro ⟨hreturn, hnull, hparagraph, hliteral⟩ configs
    refine ⟨sameLinks configs, (hname configs).mpr ⟨hreturn, hnull⟩, ?_⟩
    rw [hmarkdown]
    exact ⟨hparagraph, (inlines_iff hurl _).mpr hliteral⟩

/-- The references the escape writes. -/
def writtenReferences : HtmlTag.References where
  read
    | 'a' :: 'm' :: 'p' :: ';' :: _ => some (['&'], 4)
    | 'l' :: 't' :: ';' :: _ => some (['<'], 3)
    | 'g' :: 't' :: ';' :: _ => some (['>'], 3)
    | 'q' :: 'u' :: 'o' :: 't' :: ';' :: _ => some (['"'], 5)
    | _ => none
  amp _ := rfl
  lt _ := rfl
  gt _ := rfl
  quot _ := rfl

/-- A character a destination without angle brackets may have. -/
def isTargetChar (c : Char) : Bool := c ≠ '(' && c ≠ ')' && c ≠ ' '

def lineTarget : List Char → Option (List Char × List Char)
  | [] => none
  | c :: cs =>
    if c = '(' ∧ (cs.dropWhile isTargetChar).head? = some ')' then
      some (cs.takeWhile isTargetChar, (cs.dropWhile isTargetChar).tail)
    else none

/-- One line without markup but for links and images. -/
def lineRenderer : Renderer where
  paragraph text := !text.contains '\n' && !text.contains '\r'
  span _ _ := none
  target := lineTarget
  span_bracket _ _ _ _ := rfl
  span_shorter h := by cases h
  target_shorter {s dest rest} h := by
    cases s with
    | nil => cases h
    | cons c cs =>
      rw [lineTarget] at h
      split_ifs at h with hread
      obtain ⟨rfl, rfl⟩ := Prod.mk.inj (Option.some.inj h)
      have hlen := congrArg List.length (cs.takeWhile_append_dropWhile (p := isTargetChar))
      have hpos : 0 < (cs.dropWhile isTargetChar).length := by
        apply List.length_pos_of_ne_nil
        intro hnil
        rw [hnil] at hread
        cases hread.2
      rw [List.length_append] at hlen
      rw [List.length_tail, List.length_cons]
      omega
  target_plain url hurl rest := by
    have hchars : ∀ c ∈ url, isTargetChar c = true := by
      intro c hc
      have h := hurl c hc
      have hne : c ≠ '(' ∧ c ≠ ')' ∧ c ≠ ' ' := by
        refine ⟨?_, ?_, ?_⟩
        all_goals
          rintro rfl
          revert h
          decide
      simp [isTargetChar, hne]
    have hend : isTargetChar ')' = false := rfl
    obtain ⟨htake, hdrop⟩ := HtmlTag.span_append hchars hend rest
    rw [lineTarget, htake, hdrop]
    rfl

/-- `cat.png` is safe. -/
theorem safe_iff_catPng : Safe writtenReferences lineRenderer BatchDelete.strangersImage :=
  (safe_iff (List.all_eq_true.mp (by decide +kernel))).mpr
    ⟨by decide +kernel, by decide +kernel, by decide +kernel, by decide +kernel⟩

/-- A name that ends the image early and begins another one. -/
def twoImages : Image := { BatchDelete.strangersImage with originalName := "x](p.png)![y" }

/-- The name is one a rename accepts, and the address is plain. -/
theorem share_link_not_safe :
    ¬ ∀ (refs : HtmlTag.References) (m : Renderer) (r : Image),
      (∀ c ∈ r.url.toList, isUrlChar c = true) → Safe refs m r := by
  intro h
  obtain ⟨-, -, himage⟩ :=
    h writtenReferences lineRenderer twoImages (List.all_eq_true.mp (by decide +kernel))
      Table.empty
  have hread : inlines lineRenderer (UploadResult.fromRow
      (twoImages.joinConfig Table.empty)).markdown.toList =
      [.image ['x'] ['p', '.', 'p', 'n', 'g'],
        .image ['y'] "http://pics/u/00ff00".toList] := by decide +kernel
  cases hread.symm.trans himage.2

end PicHost.ShareLinks
