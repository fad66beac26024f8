import StageLens.Proofs.Json.Spelling
import StageLens.Proofs.Request
import StageLens.Proofs.Text.Decoding
import StageLens.Server.Service

/-!
# The largest body

A body is turned away for its size only if it is larger than the limit that belongs to the largest
source (`refuses_iff`). That limit leaves six bytes for each byte of a source and room for the rest of
the document, and it is cut to the greatest size there is, which no body exceeds anyway. So no source
that is small enough is turned away for the size of its document, however it is written.
-/

namespace StageLens.Server

open StageLens.Json (SpellsText TextSpelling)
open Orchestrator (Settings Schedule)

variable {limit : Nat} {m : Message} {source : String} {body : Bytes} {w : List Char}

/-! ## Messages that are too large -/

/-- The status of a reply to a body that is too large. -/
def tooLarge : Nat := 413

/-- A message posts a JSON document to be compiled, and the document is larger than the limit. -/
structure Exceeds (limit : Nat) (m : Message) : Prop where
  method : m.method = "POST"
  route : Route.ofTarget? m.target = some .compile
  isJson : isJson m = true
  size : limit < m.body.length

/-- The service replies to a message that its body is too large. -/
def Refuses (s : Settings) (runner : Runner) (c : Schedule) (m : Message) : Prop :=
  ∃ reply, (serve s runner c m).2 = some reply ∧ reply.status = tooLarge

theorem readBody_tooLarge_iff :
    (∃ r, readBody limit m = .error r ∧ r.status = tooLarge) ↔
      isJson m = true ∧ limit < m.body.length := by
  unfold readBody
  cases hjson : isJson m with
  | false => simp [tooLarge]
  | true =>
    by_cases hsize : limit < m.body.length
    · simp [hsize, tooLarge]
    · simp only [hsize, Bool.not_true, Bool.false_eq_true, if_false, and_false, iff_false]
      rintro ⟨r, hr, hstatus⟩
      split at hr <;> cases hr <;> cases hstatus

theorem read_tooLarge_iff :
    (∃ r, read limit m = .reply r ∧ r.status = tooLarge) ↔ Exceeds limit m := by
  have hexceeds : Exceeds limit m ↔ m.method = "POST" ∧ Route.ofTarget? m.target = some .compile ∧
      ∃ r, readBody limit m = .error r ∧ r.status = tooLarge := by
    rw [readBody_tooLarge_iff]
    constructor
    · intro h
      exact ⟨h.method, h.route, h.isJson, h.size⟩
    · rintro ⟨hmethod, hroute, hjson, hsize⟩
      exact ⟨hmethod, hroute, hjson, hsize⟩
  rw [hexceeds]
  unfold read
  dsimp only
  by_cases hoptions : m.method = "OPTIONS"
  · simp [hoptions, tooLarge]
  cases hroute : Route.ofTarget? m.target with
  | none => simp [hoptions, tooLarge]
  | some route =>
    cases route with
    | health | stages =>
      simp [hoptions, Route.method]
      split <;> simp [tooLarge]
    | compile =>
      by_cases hpost : m.method = "POST"
      · simp [hpost, Route.method]
        cases readBody limit m <;> simp
      · simp [hoptions, hpost, Route.method, tooLarge]

/-- No answer to a request is about the size of its document. -/
theorem status_replyOf_ne (answer : Except Orchestrator.Refusal Response) :
    (replyOf answer).status ≠ tooLarge := by
  unfold replyOf
  split
  · split <;> simp [tooLarge]
  · dsimp only
    split <;> simp [tooLarge]

/-- **The service turns exactly those bodies away that exceed its limit.** -/
theorem refuses_iff {s : Settings} {runner : Runner} {c : Schedule} :
    Refuses s runner c m ↔ Exceeds (bodyLimit s.sourceLimit) m := by
  rw [← read_tooLarge_iff]
  unfold Refuses serve
  cases hread : read (bodyLimit s.sourceLimit) m with
  | reply r => simp
  | compile r =>
    simp only [reduceCtorEq, false_and, exists_false, iff_false]
    rintro ⟨reply, hreply, hstatus⟩
    split at hreply
    · obtain rfl := Option.some.inj hreply
      exact status_replyOf_ne _ hstatus
    · cases hreply

/-! ## Documents that fit -/

/-- Somewhere in the body the source is spelled as a text of a document, and everything else in it,
with the quotation marks, takes at most 64 KiB. -/
def Carries (body : Bytes) (source : String) : Prop :=
  ∃ (before after : Bytes) (w : List Char), SpellsText w source ∧
    body = before ++ Text.encode w ++ after ∧ before.length + after.length ≤ 64 * 1024

theorem le_bodyLimit {n size : Nat} (h : size ≤ 6 * n + 64 * 1024) (hsize : size ≤ greatestSize) :
    size ≤ bodyLimit n := by
  unfold bodyLimit
  omega

theorem Carries.length_le (h : Carries body source) :
    body.length ≤ 6 * source.utf8ByteSize + 64 * 1024 := by
  obtain ⟨before, after, w, hw, rfl, hrest⟩ := h
  have hspelled : Text.size w ≤ 6 * source.utf8ByteSize := Json.size_le_of_spellsText hw
  rw [List.length_append, List.length_append, Text.length_encode]
  omega

theorem Carries.fits {n : Nat} (h : Carries body source) (hsource : source.utf8ByteSize ≤ n)
    (hsize : body.length ≤ greatestSize) : body.length ≤ bodyLimit n :=
  le_bodyLimit (h.length_le.trans (by omega)) hsize

/-- What stands before the characters of the source in a written request. -/
def opening : List Char := '\x7b' :: Json.quoted "source" ++ [':', '"']

/-- What stands after them: the switches. -/
def closing (o : Options) : List Char :=
  '"' :: ',' :: Json.compactMembers (Wire.optionMembers o) ++ ['\x7d']

theorem size_closing_le (o : Options) : Text.size (closing o) ≤ 128 := by
  obtain ⟨demangle, optimize, wholeModule, asLibrary⟩ := o
  revert demangle optimize wholeModule asLibrary
  decide +kernel

/-- A written request carries its source. -/
theorem carries_compact (r : Request) :
    Carries (Text.bytes (Wire.ofRequest r).compact) r.source := by
  have hmembers : Json.compactChars (Wire.ofRequest r) = '\x7b' :: (Json.quoted "source" ++
      ':' :: Json.quoted r.source ++ ',' :: Json.compactMembers (Wire.optionMembers r.options)) ++
        ['\x7d'] := rfl
  have hchars : (Wire.ofRequest r).compact.toList =
      opening ++ r.source.toList.flatMap Json.escapedChar ++ closing r.options := by
    rw [Json.compact, String.toList_ofList, hmembers, Json.quoted.eq_1 r.source]
    simp [opening, closing]
  refine ⟨Text.encode opening, Text.encode (closing r.options), _, Json.spellsText_quoted r.source,
    ?_, ?_⟩
  · rw [Text.bytes_eq_encode, hchars]
    simp [Text.encode]
  · have hopening : Text.size opening = 11 := by decide +kernel
    have hclosing := size_closing_le r.options
    rw [Text.length_encode, Text.length_encode]
    omega

/-- **Every valid source fits.** For every limit on sources, however great:

* the ways to write a text between quotation marks are all read as the text;
* whatever is read as a source of valid size, with at most 64 KiB around it, makes a body that is not
  larger than the largest body, and no service with that limit ever replies that it is too large;
* this holds of the written form of every request that is not turned away for its source.

A body has a size: it has no more bytes than the greatest number that a size can be. -/
theorem valid_sources_fit (limit : Nat) :
    (∀ (source : String) (w : List Char), TextSpelling source.toList w → SpellsText w source) ∧
    (∀ (source : String) (body : Bytes), source.utf8ByteSize ≤ limit → Carries body source →
      body.length ≤ greatestSize →
        body.length ≤ bodyLimit limit ∧
        ∀ (s : Settings) (runner : Runner) (c : Schedule) (m : Message),
          s.sourceLimit = limit → m.body = body → ¬ Refuses s runner c m) ∧
    ∀ r : Request, r.invalid? limit = none →
      Carries (Text.bytes (Wire.ofRequest r).compact) r.source ∧
      ((Text.bytes (Wire.ofRequest r).compact).length ≤ greatestSize →
        (Text.bytes (Wire.ofRequest r).compact).length ≤ bodyLimit limit) := by
  refine ⟨fun source w => Json.spellsText_of_textSpelling, ?_, ?_⟩
  · intro source body hsource hcarries hsize
    have hfits := hcarries.fits hsource hsize
    refine ⟨hfits, ?_⟩
    rintro s runner c m rfl rfl hrefuses
    exact absurd (refuses_iff.mp hrefuses).size (Nat.not_lt.mpr hfits)
  · intro r hvalid
    have hsource : r.source.utf8ByteSize ≤ limit := (Request.invalid?_eq_none_iff.mp hvalid).2
    exact ⟨carries_compact r, (carries_compact r).fits hsource⟩

/-- A control character and a character of four bytes, each written by numbers. -/
def numbered : List Char := "\\u0001\\uD83D\\ude00".toList

/-- A document with that source. -/
def numberedBody : Bytes := Text.encode ("\x7b\"source\": \"".toList ++ numbered ++ "\"\x7d".toList)

/-- A source of five bytes fits under a limit of five and under one that no size could hold six times,
though the document writes it with eighteen. -/
theorem valid_sources_fit_numbered :
    SpellsText numbered "\x01😀" ∧ Carries numberedBody "\x01😀" ∧
    ∀ limit ∈ [5, 2 ^ 63], numberedBody.length ≤ bodyLimit limit ∧
      (∀ runner c, ¬ Refuses (Settings.ofConfig { tree := .empty } { limits := { sourceBytes := limit } })
        runner c { method := "POST", target := "/api/compile", body := numberedBody }) ∧
      (Text.bytes (Wire.ofRequest { source := "\x01😀" }).compact).length ≤ bodyLimit limit := by
  have hone : Json.HexUnit ['0', '0', '0', '1'] (((0 * 16 + 0) * 16 + 0) * 16 + 1) :=
    .digits rfl rfl rfl rfl
  have hcontrol : Json.CharSpelling '\x01' ['\\', 'u', '0', '0', '0', '1'] := .unit hone
  have hpair : Json.CharSpelling '😀'
      (['\\', 'u', 'D', '8', '3', 'D'] ++ ['\\', 'u', 'd', 'e', '0', '0']) :=
    .pair (.digits rfl rfl rfl rfl) (.digits rfl rfl rfl rfl) (by decide) (by decide) (by decide)
  have hspelling : TextSpelling "\x01😀".toList numbered := .cons hcontrol (.cons hpair .nil)
  have hspells := (valid_sources_fit 5).1 _ _ hspelling
  have hcarries : Carries numberedBody "\x01😀" :=
    ⟨Text.encode "\x7b\"source\": \"".toList, Text.encode "\"\x7d".toList, numbered, hspells,
      by simp [numberedBody, Text.encode], by decide +kernel⟩
  refine ⟨hspells, hcarries, fun limit hlimit => ?_⟩
  have hsource : "\x01😀".utf8ByteSize ≤ limit := by
    have hall : ∀ limit ∈ [5, 2 ^ 63], 5 ≤ limit := by decide
    exact hall limit hlimit
  obtain ⟨-, hbody, hrequest⟩ := valid_sources_fit limit
  obtain ⟨hfits, hserved⟩ := hbody "\x01😀" numberedBody hsource hcarries (by decide +kernel)
  have hvalid : ({ source := "\x01😀" } : Request).invalid? limit = none :=
    Request.invalid?_eq_none_iff.mpr
      ⟨fun hblank => absurd (hblank '\x01' (by decide)) (by decide), hsource⟩
  exact ⟨hfits, fun runner c => hserved _ runner c _ rfl rfl,
    (hrequest _ hvalid).2 (by decide +kernel)⟩

end StageLens.Server
