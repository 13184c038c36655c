import Logryph.Infra.GoConv
import Logryph.Infra.Html
import Logryph.Pool

/-!
# The HTML report of a task

`generateHTMLReport` writes the events of a task into an HTML file. The texts of the events are put
into the holes of the file as they are, without escaping anything. So a text that was recorded from
an agent can contain tags, which are then tags of the report.

The file is written piece by piece, and what was written before a failure stays. A write that fails
is left out.

* `generateHTMLReport_file` — the file, as a document with holes
* `not_breaks_report_iff` — the texts are read as characters if none of them begins markup
* `report_markup_iff` — which is when two reports of similar events have the same tags
-/

namespace Logryph

open Infra

/-! ## Writing the report -/

def maxReportEvents : Nat := 100000

/-- The time of the report, as `time.RFC1123` prints it: names of days, months and time zones,
digits and separators. -/
structure ReportTime where
  text : Bytes
  no_lt : 0x3C ∉ text

/-- `Timestamp.Format("15:04:05.000")`. -/
def clockText (t : Time) : Bytes :=
  utf8 (Time.pad 2 t.hour ++ ':' :: (Time.pad 2 t.minute ++ ':' :: (Time.pad 2 t.second ++
    '.' :: Time.pad 3 (t.nanos / 10 ^ 6))))

def riskClass (e : Event) : Bytes :=
  if e.riskLevel = lit "high" then lit "event-risk-high"
  else if e.riskLevel = lit "critical" then lit "event-risk-critical"
  else if e.eventType = lit "tool_call" then lit "event-call"
  else lit "event-response"

/-- `formatRiskBadge`. -/
def formatRiskBadge (risk : Bytes) : Bytes :=
  if risk = [] ∨ risk = lit "low" then lit "<span class=\"risk-badge risk-low\">Low Risk</span>"
  else if risk = lit "high" then lit "<span class=\"risk-badge risk-high\">High Risk</span>"
  else lit "<span class=\"risk-badge risk-critical\">Critical Risk</span>"

/-- `formatPayload`: the map as `%+v` prints it. -/
def formatPayload (p : Object) : Bytes :=
  match p with
  | none => lit "map[]"
  | some m => sprint (.map m.entries)

/-- The file up to the title. -/
def reportOpening : Bytes :=
  lit "<!DOCTYPE html>\n<html>\n<head>\n    <title>Logryph Forensic Report - Task "

/-- From the end of the title to the heading. -/
def reportStyle : Bytes :=
  lit "</title>\n    <style>\n" ++
    lit "        body \x7b font-family: -apple-system, BlinkMacSystemFont, \"Segoe UI\", " ++
    lit "Roboto, sans-serif; line-height: 1.6; color: #333; max-width: 1000px; margin: 0 " ++
    lit "auto; padding: 20px; background: #f9f9f9; \x7d\n" ++
    lit "        .header \x7b background: #1a1a1a; color: white; padding: 20px; " ++
    lit "border-radius: 8px; margin-bottom: 30px; \x7d\n" ++
    lit "        .event \x7b background: white; border: 1px solid #ddd; padding: 15px; " ++
    lit "border-radius: 6px; margin-bottom: 10px; border-left: 5px solid #eee; \x7d\n" ++
    lit "        .event-call \x7b border-left-color: #007bff; \x7d\n" ++
    lit "        .event-response \x7b border-left-color: #28a745; \x7d\n" ++
    lit "        .event-risk-high \x7b border-left-color: #ffc107; background: #fffdf5; \x7d\n" ++
    lit "        .event-risk-critical \x7b border-left-color: #dc3545; background: #fff5f5; " ++
    lit "\x7d\n        .meta \x7b font-size: 0.85em; color: #666; margin-bottom: 5px; \x7d\n" ++
    lit "        .payload \x7b background: #f1f1f1; padding: 10px; border-radius: 4px; " ++
    lit "font-family: \"SFMono-Regular\", Consolas, \"Liberation Mono\", Menlo, monospace; " ++
    lit "font-size: 0.9em; white-space: pre-wrap; overflow-x: auto; margin-top: 10px; \x7d\n" ++
    lit "        .id \x7b color: #007bff; font-weight: bold; \x7d\n" ++
    lit "        .risk-badge \x7b display: inline-block; padding: 2px 8px; border-radius: " ++
    lit "12px; font-size: 0.8em; font-weight: bold; text-transform: uppercase; \x7d\n" ++
    lit "        .risk-low \x7b background: #e2fcd4; color: #2e7d32; \x7d\n" ++
    lit "        .risk-high \x7b background: #fff3cd; color: #856404; \x7d\n" ++
    lit "        .risk-critical \x7b background: #f8d7da; color: #721c24; \x7d\n" ++
    lit "    </style>\n</head>\n<body>\n    <div class=\"header\">\n" ++
    lit "        <h1>Forensic Evidence Report</h1>\n        <p><strong>Task ID:</strong> "

def headerSegments (now : ReportTime) (taskID runID : Bytes) : List Html.Segment :=
  [⟨taskID, lit "</p>\n        <p><strong>Run ID:</strong> "⟩,
    ⟨runID, lit "</p>\n        <p><strong>Generated:</strong> "⟩,
    ⟨now.text, lit "</p>\n    </div>\n"⟩]

/-- The parameters or the response of an event, unless there are none. -/
def payloadSegments (name : String) (p : Object) : List Html.Segment :=
  if 0 < mapLen p then
    [⟨[], lit "        <div class=\"payload\"><strong>" ++ lit name ++ lit ":</strong> "⟩,
      ⟨formatPayload p, lit "</div>"⟩]
  else []

/-- What is written for an event. -/
def eventSegments (e : Event) : List Html.Segment :=
  [⟨[], lit "\n    <div class=\"event " ++ riskClass e ++ lit "\">\n" ++
      lit "        <div class=\"meta\">\n            <span class=\"id\">["⟩,
    ⟨e.id.take 8, lit "]</span> "⟩,
    ⟨clockText e.timestamp, lit " &bull; <strong>"⟩,
    ⟨e.actor, lit "</strong> &bull; "⟩,
    ⟨e.eventType, lit "\n            " ++ formatRiskBadge e.riskLevel ++
      lit "\n        </div>\n        <div><strong>Method:</strong> "⟩,
    ⟨e.method, lit "</div>\n"⟩] ++
  payloadSegments "Params" e.params ++ payloadSegments "Response" e.response ++
  [⟨[], lit "    </div>"⟩]

def reportFooter : List Html.Segment := [⟨[], lit "\n</body>\n</html>\n"⟩]

/-- The loop over the events: how it ends, and what it writes until then. An id of less than eight
bytes is a panic. -/
def writeEvents : List Event → Except Fault Unit × List Html.Segment
  | [] => (.ok (), [])
  | e :: events =>
    if e.id.length < 8 then
      (.error (.panic (lit "runtime error: slice bounds out of range [:8] with length " ++
        natText e.id.length)), [])
    else
      let (r, segs) := writeEvents events
      (r, eventSegments e ++ segs)

/-- `generateHTMLReport`: how it ends, and the file. -/
def generateHTMLReport (strict : Bool) (now : ReportTime) (taskID : Bytes) (events : List Event) :
    Except Fault Unit × List (UInt8 × Html.Origin) :=
  match events with
  | [] =>
    (.error (.panic (lit "runtime error: index out of range [0] with length 0")), [])
  | first :: _ =>
    let header := Html.mark .template reportOpening ++ Html.mark .recorded taskID ++
      Html.mark .template reportStyle ++
      (headerSegments now taskID first.runID).flatMap Html.Segment.bytes
    match check strict (events.length ≤ maxReportEvents)
        (lit "report events exceed max: " ++ natText events.length) with
    | .error f => (.error f, header)
    | .ok () =>
      match writeEvents events with
      | (.error f, segs) => (.error f, header ++ segs.flatMap Html.Segment.bytes)
      | (.ok (), segs) =>
        (.ok (), header ++ (segs ++ reportFooter).flatMap Html.Segment.bytes)

/-! ## The file -/

theorem after_reportOpening :
    Html.after .data (Html.mark .template reportOpening) = .raw (lit "title") := by
  decide +kernel

theorem after_reportStyle :
    Html.after (.raw (lit "title")) (Html.mark .template reportStyle) = .data := by
  decide +kernel

/-- The beginning of the file. -/
def reportFrame : Html.Frame where
  opening := reportOpening
  name := lit "title"
  middle := reportStyle
  enters := after_reportOpening
  leaves := after_reportStyle
  middle_head := by decide +kernel
  name_lt := by decide

/-- The events that are written. -/
def shownEvents (events : List Event) : List Event :=
  if events.length ≤ maxReportEvents then events.takeWhile fun e => 8 ≤ e.id.length else []

/-- The holes of the file from the heading on. -/
def reportSegments (now : ReportTime) (taskID runID : Bytes) (events : List Event) :
    List Html.Segment :=
  headerSegments now taskID runID ++ (shownEvents events).flatMap eventSegments ++
    if (shownEvents events).length = events.length then reportFooter else []

theorem writeEvents_snd : ∀ events, (writeEvents events).2 =
    (events.takeWhile fun e => 8 ≤ e.id.length).flatMap eventSegments
  | [] => rfl
  | e :: events => by
    rw [writeEvents]
    by_cases hid : e.id.length < 8
    · rw [if_pos hid, List.takeWhile_cons_of_neg (by simpa using hid)]
      rfl
    · rw [if_neg hid, List.takeWhile_cons_of_pos (by simpa using hid), List.flatMap_cons,
        ← writeEvents_snd events]

theorem writeEvents_fst : ∀ events, (writeEvents events).1 = .ok () ↔
    (events.takeWhile fun e => 8 ≤ e.id.length).length = events.length
  | [] => by simp [writeEvents]
  | e :: events => by
    rw [writeEvents]
    by_cases hid : e.id.length < 8
    · rw [if_pos hid, List.takeWhile_cons_of_neg (by simpa using hid)]
      simp
    · rw [if_neg hid, List.takeWhile_cons_of_pos (by simpa using hid)]
      simpa using writeEvents_fst events

/-- **The file is a document with holes.** -/
theorem generateHTMLReport_file (strict : Bool) (now : ReportTime) (taskID : Bytes) (first : Event)
    (rest : List Event) :
    (generateHTMLReport strict now taskID (first :: rest)).2 =
      reportFrame.document taskID (reportSegments now taskID first.runID (first :: rest)) := by
  unfold generateHTMLReport Html.Frame.document reportFrame reportSegments shownEvents
  dsimp only
  by_cases hlen : (first :: rest).length ≤ maxReportEvents
  · have hcheck : check strict (decide ((first :: rest).length ≤ maxReportEvents))
        (lit "report events exceed max: " ++ natText (first :: rest).length) = .ok () :=
      check_eq_ok.mpr (decide_eq_true hlen)
    have hfst := writeEvents_fst (first :: rest)
    have hsnd := writeEvents_snd (first :: rest)
    rw [hcheck, if_pos hlen]
    generalize writeEvents (first :: rest) = w at hfst hsnd
    obtain ⟨r, segs⟩ := w
    obtain rfl : segs = _ := hsnd
    cases r with
    | error f =>
      rw [if_neg fun hall => by cases hfst.mpr hall]
      simp
    | ok u =>
      rw [if_pos (hfst.mp rfl)]
      simp
  · -- none of too many events is written
    rw [if_neg hlen, if_neg (by simp)]
    cases hcheck : check strict (decide ((first :: rest).length ≤ maxReportEvents))
        (lit "report events exceed max: " ++ natText (first :: rest).length) with
    | error f => simp
    | ok u =>
      rw [check_eq_ok, decide_eq_true_eq] at hcheck
      exact absurd hcheck hlen

/-! ## Its chunks -/

theorem isChunk_headerSegments {now : ReportTime} {taskID runID : Bytes} {s : Html.Segment}
    (h : s ∈ headerSegments now taskID runID) : Html.isChunk s.chunk = true := by
  simp only [headerSegments, List.mem_cons, List.not_mem_nil, or_false] at h
  rcases h with rfl | rfl | rfl <;> dsimp only <;> decide +kernel

theorem isChunk_payloadSegments {name : String} (hname : name = "Params" ∨ name = "Response")
    {p : Object} {s : Html.Segment} (h : s ∈ payloadSegments name p) :
    Html.isChunk s.chunk = true := by
  unfold payloadSegments at h
  split at h
  · simp only [List.mem_cons, List.not_mem_nil, or_false] at h
    rcases hname with rfl | rfl <;> rcases h with rfl | rfl <;> dsimp only <;> decide +kernel
  · cases h

theorem isChunk_eventSegments {e : Event} {s : Html.Segment} (h : s ∈ eventSegments e) :
    Html.isChunk s.chunk = true := by
  simp only [eventSegments, riskClass, formatRiskBadge, List.mem_append, List.mem_cons,
    List.not_mem_nil, or_false] at h
  rcases h with ((h | h) | h) | rfl
  · -- the class and the badge are among a few
    rcases h with rfl | rfl | rfl | rfl | rfl | rfl <;> dsimp only
    all_goals try split_ifs
    all_goals decide +kernel
  · exact isChunk_payloadSegments (.inl rfl) h
  · exact isChunk_payloadSegments (.inr rfl) h
  · decide +kernel

theorem isChunk_reportSegments {now : ReportTime} {taskID runID : Bytes} {events : List Event} :
    ∀ s ∈ reportSegments now taskID runID events, Html.isChunk s.chunk = true := by
  intro s h
  simp only [reportSegments, List.mem_append, List.mem_flatMap] at h
  rcases h with (h | ⟨e, -, h⟩) | h
  · exact isChunk_headerSegments h
  · exact isChunk_eventSegments h
  · split at h
    · obtain rfl := List.mem_singleton.mp h
      decide +kernel
    · cases h

/-! ## Its texts -/

/-- The texts that an event puts into the file. -/
def eventTexts (e : Event) : List Bytes :=
  [e.id.take 8, e.actor, e.eventType, e.method] ++
    (if 0 < mapLen e.params then [formatPayload e.params] else []) ++
    if 0 < mapLen e.response then [formatPayload e.response] else []

/-- The texts that are put into the file. -/
def recordedTexts (taskID : Bytes) (events : List Event) : List Bytes :=
  match events with
  | [] => []
  | first :: _ => taskID :: first.runID :: (shownEvents events).flatMap eventTexts

theorem plain_clockText (t : Time) : Html.plain (clockText t) = true := by
  have hdigit : ∀ {w n : Nat} {c : Char}, c ∈ Time.pad w n → c.toNat ≠ 0x3C := by
    intro w n c hc
    have := toNat_of_isDigit (Time.isDigit_pad c hc)
    omega
  refine Html.plain_of_not_mem (not_mem_utf8 (by decide) fun c hc => ?_)
  simp only [List.mem_append, List.mem_cons] at hc
  rcases hc with hc | rfl | hc | rfl | hc | rfl | hc
  · exact hdigit hc
  · decide
  · exact hdigit hc
  · decide
  · exact hdigit hc
  · decide
  · exact hdigit hc

theorem plain_payloadSegments {name : String} {p : Object} :
    (∀ s ∈ payloadSegments name p, Html.plain s.text = true) ↔
      ∀ t ∈ if 0 < mapLen p then [formatPayload p] else [], Html.plain t = true := by
  unfold payloadSegments
  split
  · simp [Html.plain]
  · simp

theorem plain_eventSegments {e : Event} : (∀ s ∈ eventSegments e, Html.plain s.text = true) ↔
    ∀ t ∈ eventTexts e, Html.plain t = true := by
  simp only [eventSegments, eventTexts, List.forall_mem_append, plain_payloadSegments]
  simp [Html.plain, plain_clockText, and_assoc]

/-- The texts of the clock are plain, so only the recorded ones matter. -/
theorem plain_reportSegments (now : ReportTime) {taskID : Bytes} {first : Event}
    {rest : List Event} :
    (∀ s ∈ reportSegments now taskID first.runID (first :: rest), Html.plain s.text = true) ↔
      ∀ t ∈ recordedTexts taskID (first :: rest), Html.plain t = true := by
  have hnow := Html.plain_of_not_mem now.no_lt
  have hfooter : ∀ s ∈ if (shownEvents (first :: rest)).length = (first :: rest).length then
      reportFooter else [], Html.plain s.text = true := by
    intro s hs
    split at hs
    · obtain rfl := List.mem_singleton.mp hs
      rfl
    · cases hs
  have hevents : (∀ s ∈ (shownEvents (first :: rest)).flatMap eventSegments,
      Html.plain s.text = true) ↔
        ∀ t ∈ (shownEvents (first :: rest)).flatMap eventTexts, Html.plain t = true := by
    simp only [List.forall_mem_flatMap, plain_eventSegments]
  rw [reportSegments, List.forall_mem_append, List.forall_mem_append, hevents, recordedTexts,
    and_iff_left hfooter]
  simp [headerSegments, hnow, and_assoc]

/-! ## Its tags -/

/-- The tags of the heading. -/
def headerTags : List Bytes :=
  (headerSegments ⟨[], List.not_mem_nil⟩ [] []).flatMap fun s => Html.chunkTags s.chunk

def eventTags (e : Event) : List Bytes := (eventSegments e).flatMap fun s => Html.chunkTags s.chunk

def footerTags : List Bytes := reportFooter.flatMap fun s => Html.chunkTags s.chunk

theorem eventTags_ne_nil (e : Event) : eventTags e ≠ [] := by
  have hspan : Html.chunkTags (lit "]</span> ") = [lit "</span>"] := by decide +kernel
  have hmem : lit "</span>" ∈ eventTags e := by
    refine List.mem_flatMap.mpr ⟨⟨e.id.take 8, lit "]</span> "⟩, ?_, ?_⟩
    · simp [eventSegments]
    · dsimp only
      rw [hspan]
      exact List.mem_singleton_self _
  exact List.ne_nil_of_mem hmem

section

variable {now : ReportTime} {taskID : Bytes} {first : Event} {rest : List Event}

/-- The task id of the title stands in the heading again. -/
theorem plain_taskID (hplain : ∀ s ∈ reportSegments now taskID first.runID (first :: rest),
    Html.plain s.text = true) : Html.plain taskID = true :=
  hplain ⟨taskID, _⟩ (List.mem_append_left _ (List.mem_append_left _ List.mem_cons_self))

/-- **The recorded texts are read as characters exactly if they are plain.** -/
theorem not_breaks_report_iff (strict : Bool) :
    ¬ Html.Breaks (Html.tokens (generateHTMLReport strict now taskID (first :: rest)).2) ↔
      ∀ t ∈ recordedTexts taskID (first :: rest), Html.plain t = true := by
  rw [generateHTMLReport_file, ← plain_reportSegments now]
  constructor
  · intro hnot s hs
    by_contra hplain
    exact hnot (reportFrame.breaks_document isChunk_reportSegments
      ⟨s, hs, by simpa using hplain⟩)
  · intro hplain
    exact reportFrame.not_breaks_document isChunk_reportSegments (plain_taskID hplain) hplain

/-- With a plain task id, the tags before the heading are always the same. -/
theorem tags_report_opening (strict : Bool) (htitle : Html.plain taskID = true) :
    Html.tags (Html.tokens (generateHTMLReport strict now taskID (first :: rest)).2) =
      reportFrame.tags ++ Html.tags (Html.scan .data
        ((reportSegments now taskID first.runID (first :: rest)).flatMap Html.Segment.bytes)) := by
  rw [generateHTMLReport_file, reportFrame.tags_document htitle]

/-- With plain texts, the other ones are those of the heading and of the events that are shown. -/
theorem tags_report (strict : Bool)
    (hplain : ∀ t ∈ recordedTexts taskID (first :: rest), Html.plain t = true) :
    Html.tags (Html.tokens (generateHTMLReport strict now taskID (first :: rest)).2) =
      reportFrame.tags ++ (headerTags ++ (shownEvents (first :: rest)).flatMap eventTags ++
        if (shownEvents (first :: rest)).length = (first :: rest).length then footerTags
        else []) := by
  rw [← plain_reportSegments now] at hplain
  have htags := (Html.scan_segments [] isChunk_reportSegments hplain).1
  rw [List.append_nil] at htags
  have hfooter : (if (shownEvents (first :: rest)).length = (first :: rest).length then
      reportFooter else []).flatMap (fun s => Html.chunkTags s.chunk) =
      if (shownEvents (first :: rest)).length = (first :: rest).length then footerTags else [] := by
    split <;> rfl
  rw [tags_report_opening strict (plain_taskID hplain), htags, reportSegments,
    List.flatMap_append, List.flatMap_append, List.flatMap_assoc, hfooter]
  exact congrArg _ (List.append_nil _)

end

/-! ## Two reports -/

/-- The events have the same place in a report. -/
structure Alike (e e' : Event) : Prop where
  riskLevel : e.riskLevel = e'.riskLevel
  eventType : e.eventType = e'.eventType
  params : 0 < mapLen e.params ↔ 0 < mapLen e'.params
  response : 0 < mapLen e.response ↔ 0 < mapLen e'.response

theorem Alike.eventTags_eq {e e' : Event} (h : Alike e e') : eventTags e = eventTags e' := by
  have hchunks : ∀ e : Event, eventTags e =
      ((eventSegments e).map Html.Segment.chunk).flatMap Html.chunkTags := by
    intro e
    rw [List.flatMap_map]
    rfl
  rw [hchunks, hchunks]
  congr 1
  have hpayload : ∀ {name : String} {p p' : Object}, (0 < mapLen p ↔ 0 < mapLen p') →
      (payloadSegments name p).map Html.Segment.chunk =
        (payloadSegments name p').map Html.Segment.chunk := by
    intro name p p' hp
    unfold payloadSegments
    by_cases hlen : 0 < mapLen p
    · rw [if_pos hlen, if_pos (hp.mp hlen)]
      rfl
    · rw [if_neg hlen, if_neg (mt hp.mpr hlen)]
  simp only [eventSegments, riskClass, List.map_append, List.map_cons, List.map_nil,
    hpayload h.params, hpayload h.response, h.riskLevel, h.eventType]

/-- More lists that are not empty are longer together. -/
theorem length_flatten_take_lt {β : Type} {l : List (List β)} (hne : ∀ x ∈ l, x ≠ []) {k k' : Nat}
    (hk : k < k') (hk' : k' ≤ l.length) :
    (l.take k).flatten.length < (l.take k').flatten.length := by
  obtain ⟨d, rfl⟩ := Nat.exists_eq_add_of_lt hk
  have hlt : k < l.length := by omega
  have hhead : 0 < (l.get ⟨k, hlt⟩).length := List.length_pos_of_ne_nil (hne _ (List.get_mem _ _))
  rw [Nat.add_assoc, List.take_add, List.flatten_append, List.length_append,
    List.drop_eq_getElem_cons hlt, List.take_succ_cons, List.flatten_cons, List.length_append]
  exact Nat.lt_add_of_pos_right (Nat.add_pos_left hhead _)

theorem shownEvents_eq_take (events : List Event) :
    shownEvents events = events.take (shownEvents events).length := by
  have hsub : shownEvents events <+: events := by
    unfold shownEvents
    split
    · exact List.takeWhile_prefix _
    · exact List.nil_prefix
  exact List.prefix_iff_eq_take.mp hsub

theorem length_shownEvents_le (events : List Event) :
    (shownEvents events).length ≤ events.length := by
  rw [shownEvents_eq_take, List.length_take]
  exact Nat.min_le_right _ _

/-- What the events that are shown have of the tags of all of them. -/
theorem flatMap_eventTags (events : List Event) : (shownEvents events).flatMap eventTags =
    ((events.map eventTags).take (shownEvents events).length).flatten := by
  rw [← List.map_take, ← shownEvents_eq_take, List.flatMap_def]

/-- The tags between the heading and the end say how many events are shown. -/
theorem tags_eq_iff {tags : List (List Bytes)} (hne : ∀ x ∈ tags, x ≠ []) {k k' : Nat}
    (hk : k ≤ tags.length) (hk' : k' ≤ tags.length) :
    reportFrame.tags ++ (headerTags ++ (tags.take k).flatten ++
        (if k = tags.length then footerTags else [])) =
      reportFrame.tags ++ (headerTags ++ (tags.take k').flatten ++
        (if k' = tags.length then footerTags else [])) ↔ k = k' := by
  constructor
  · intro h
    have hlen := congrArg List.length h
    simp only [List.length_append] at hlen
    rcases lt_trichotomy k k' with hlt | heq | hlt
    · have hless := length_flatten_take_lt hne hlt hk'
      rw [if_neg (by omega), List.length_nil] at hlen
      omega
    · exact heq
    · have hless := length_flatten_take_lt hne hlt hk
      rw [if_neg (c := k' = _) (by omega), List.length_nil] at hlen
      omega
  · rintro rfl
    rfl

/-- **When the recorded texts cannot alter the markup.** Two reports of similar events have the same
tags, and their recorded texts are only text, if and only if they show the same number of events
and no text that they show begins markup. -/
theorem report_markup_iff (strict : Bool) (now now' : ReportTime) (taskID taskID' : Bytes)
    (events events' : List Event) (h : List.Forall₂ Alike events events') :
    (Html.tags (Html.tokens (generateHTMLReport strict now taskID events).2) =
        Html.tags (Html.tokens (generateHTMLReport strict now' taskID' events').2) ∧
      ¬ Html.Breaks (Html.tokens (generateHTMLReport strict now taskID events).2) ∧
      ¬ Html.Breaks (Html.tokens (generateHTMLReport strict now' taskID' events').2)) ↔
    (shownEvents events).length = (shownEvents events').length ∧
      (∀ t ∈ recordedTexts taskID events, Html.plain t = true) ∧
      ∀ t ∈ recordedTexts taskID' events', Html.plain t = true := by
  have htags : events.map eventTags = events'.map eventTags := by
    refine List.forall₂_eq_eq_eq ▸ ?_
    rw [List.forall₂_map_left_iff, List.forall₂_map_right_iff]
    exact h.imp fun e e' halike => halike.eventTags_eq
  cases h with
  | nil => simp [generateHTMLReport, recordedTexts, Html.Breaks, Html.tokens, Html.scan,
      Html.finish, Html.Scanner.pending]
  | @cons first first' rest rest' _ _ =>
    rw [not_breaks_report_iff, not_breaks_report_iff]
    refine and_congr_left ?_
    rintro ⟨hplain, hplain'⟩
    have hne : ∀ x ∈ (first :: rest).map eventTags, x ≠ [] := by
      intro x hx
      obtain ⟨e, -, rfl⟩ := List.mem_map.mp hx
      exact eventTags_ne_nil e
    have hlen : (first :: rest).length = ((first :: rest).map eventTags).length :=
      (List.length_map _).symm
    have hlen' : (first' :: rest').length = ((first :: rest).map eventTags).length := by
      rw [htags, List.length_map]
    rw [tags_report strict hplain, tags_report strict hplain', flatMap_eventTags,
      flatMap_eventTags, ← htags, hlen, hlen']
    exact tags_eq_iff hne (hlen ▸ length_shownEvents_le _) (hlen' ▸ length_shownEvents_le _)

/-- A call of the tool. -/
def reportedCall (method : Bytes) : Event :=
  { id := lit "0f8fad5b-d9cb", runID := lit "run-1", actor := lit "agent",
    eventType := lit "tool_call", riskLevel := lit "low", method }

def midnight : ReportTime := ⟨lit "Tue, 27 Jan 2026 00:00:00 UTC", by decide⟩

theorem alike_reportedCall (method method' : Bytes) :
    List.Forall₂ Alike [reportedCall method] [reportedCall method'] :=
  .cons ⟨rfl, rfl, Iff.rfl, Iff.rfl⟩ .nil

/-- A `<` in front of a space does not change the tags. -/
theorem report_markup_comparison :
    Html.tags (Html.tokens
        (generateHTMLReport true midnight (lit "t1") [reportedCall (lit "a < b")]).2) =
      Html.tags (Html.tokens
        (generateHTMLReport true midnight (lit "t2") [reportedCall (lit "tools/list")]).2) :=
  ((report_markup_iff true midnight midnight (lit "t1") (lit "t2") _ _
    (alike_reportedCall (lit "a < b") (lit "tools/list"))).mpr
      ⟨by decide, by decide, by decide⟩).1

/-- **A method with a tag in it puts the tag into the report.** -/
theorem report_markup_script :
    List.Forall₂ Alike [reportedCall (lit "<script>alert(1)</script>")]
        [reportedCall (lit "tools/list")] ∧
      Html.tags (Html.tokens (generateHTMLReport true midnight (lit "t1")
          [reportedCall (lit "<script>alert(1)</script>")]).2) ≠
        Html.tags (Html.tokens (generateHTMLReport true midnight (lit "t1")
          [reportedCall (lit "tools/list")]).2) ∧
      Html.Breaks (Html.tokens (generateHTMLReport true midnight (lit "t1")
        [reportedCall (lit "<script>alert(1)</script>")]).2) := by
  refine ⟨alike_reportedCall _ _, ?_, ?_⟩
  · rw [tags_report_opening true (by decide), tags_report_opening true (by decide), Ne,
      List.append_cancel_left_eq]
    decide +kernel
  · by_contra hnot
    exact absurd ((not_breaks_report_iff true).mp hnot) (by decide)

end Logryph
