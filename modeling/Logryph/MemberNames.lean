import Logryph.Interceptor

/-!
# The names of the members

A request is read into a struct, and `encoding/json` gives a member to the field whose name it has
up to case. So a body can have several members for one field, though no two with the same name. The
tool server may only know the one that is spelled as the protocol spells it.

* `method_of_setFields`, `params_of_setFields` — what the members of a body make of the two fields
* `unshadowed_of_names` — without other spellings the exact members are what is read
* `seenExactly_iff` — the bodies for which they are
-/

namespace Logryph

open Infra

/-! ## Reading the two fields -/

/-- A member changes the field that it matches, and no other. -/
theorem set_fields {name : Bytes} {x : Json} {r r' : MCPRequest} (h : r.set name x = some r') :
    (name = lit "method" → x.intoString r.method = some r'.method) ∧
      (name ≠ lit "method" → r'.method = r.method) ∧
      (name = lit "params" → x.intoMap r.params = some r'.params) ∧
      (name ≠ lit "params" → r'.params = r.params) := by
  have hnames : [lit "jsonrpc", lit "id", lit "method", lit "params"].Nodup := by decide
  simp only [List.nodup_cons, List.mem_cons, List.not_mem_nil, not_or, or_false] at hnames
  obtain ⟨⟨-, hjm, hjp⟩, ⟨him, hip⟩, hmp, -⟩ := hnames
  rcases MCPRequest.set_cases h with ⟨_, rfl, -, rfl⟩ | ⟨_, rfl, -, rfl⟩ | ⟨_, rfl, hx, rfl⟩ |
    ⟨_, rfl, hx, rfl⟩ | ⟨hname, rfl⟩
  · simp [hjm, hjp]
  · simp [him, hip]
  · simp [hx, hmp]
  · simp [hx, Ne.symm hmp]
  · simp only [List.mem_cons, List.not_mem_nil, not_or] at hname
    simp [hname.2.2.1, hname.2.2.2.1]

/-- The method holds what is read into it. -/
theorem method_of_setFields {ms : List (List Char × Json)} {r r' : MCPRequest}
    (h : Json.setFields MCPRequest.set ms r = some r') :
    (Json.variants (lit "method") ms).foldlM Json.intoString r.method = some r'.method :=
  Json.setFields_field (g := MCPRequest.method) (fun _ _ _ hset => (set_fields hset).1 rfl)
    (fun _ _ _ _ hname hset => (set_fields hset).2.1 hname) h

/-- So do the parameters. -/
theorem params_of_setFields {ms : List (List Char × Json)} {r r' : MCPRequest}
    (h : Json.setFields MCPRequest.set ms r = some r') :
    (Json.variants (lit "params") ms).foldlM Json.intoMap r.params = some r'.params :=
  Json.setFields_field (g := MCPRequest.params) (fun _ _ _ hset => (set_fields hset).2.2.1 rfl)
    (fun _ _ _ _ hname hset => (set_fields hset).2.2.2 hname) h

/-! ## The exact members -/

/-- The parameters are the value of the member with exactly this name, or nil without one. -/
structure SeenParams (ms : List (List Char × Json)) (o : Object) : Prop where
  present : ∀ x, (chars "params", x) ∈ ms → x.decodeObject = some o
  absent : (∀ x, (chars "params", x) ∉ ms) → o = none

/-- The method and the parameters are the values of the members with exactly these names. -/
def SeenExactly (ms : List (List Char × Json)) (method : Bytes) (params : Object) : Prop :=
  (∃ cs, (chars "method", .str cs) ∈ ms ∧ method = utf8 cs) ∧ SeenParams ms params

/-- The members that are read into the two fields say together what the exact ones say: the last
string for the method is that of the exact one, the last value for the parameters is an object if
the exact one is, and the entries that remain are those of the exact one. -/
structure Unshadowed (ms : List (List Char × Json)) : Prop where
  method : ∃ cs, (chars "method", .str cs) ∈ ms ∧ Json.LastText (Json.variants (lit "method") ms) cs
  params : (∃ before ps, Json.variants (lit "params") ms = before ++ [.obj ps]) ↔
    ∃ ps, (chars "params", .obj ps) ∈ ms
  entries : ∀ k v, Json.LastEntry (Json.variants (lit "params") ms) k v ↔
    ∃ ps l, (chars "params", .obj ps) ∈ ms ∧ Json.decodeMembers ps = some l ∧ IsLatest l k v

variable {ms : List (List Char × Json)}

theorem eq_of_mem_nodup (hnodup : (ms.map Prod.fst).Nodup) {name : List Char} {x y : Json}
    (hx : (name, x) ∈ ms) (hy : (name, y) ∈ ms) : x = y :=
  congrArg Prod.snd (List.inj_on_of_nodup_map hnodup hx hy rfl)

/-- What is accepted in the place of the parameters. -/
theorem intoMap_cases {old o : Object} {x : Json} (h : x.intoMap old = some o) :
    x = .null ∨ ∃ ps l, x = .obj ps ∧ Json.decodeMembers ps = some l := by
  cases x with
  | null => exact .inl rfl
  | obj ps =>
    obtain ⟨l, hl, -⟩ := Option.map_eq_some_iff.mp h
    exact .inr ⟨ps, l, rfl, hl⟩
  | bool b => cases h
  | num d => cases h
  | negZero => cases h
  | arr xs => cases h
  | str cs => cases h

/-- The exact parameters: nil, or the map of an object. -/
theorem exists_seenParams (hnodup : (ms.map Prod.fst).Nodup)
    (haccepted : ∀ x, (chars "params", x) ∈ ms →
      x = .null ∨ ∃ ps l, x = .obj ps ∧ Json.decodeMembers ps = some l) :
    ∃ exact : Object, (∀ o, SeenParams ms o ↔ o = exact) ∧
      (exact.isSome ↔ ∃ ps, (chars "params", .obj ps) ∈ ms) ∧
      ∀ k v, (exact.bind fun m => m.get? k) = some v ↔
        ∃ ps l, (chars "params", .obj ps) ∈ ms ∧ Json.decodeMembers ps = some l ∧
          IsLatest l k v := by
  by_cases hobj : ∃ ps, (chars "params", .obj ps) ∈ ms
  · obtain ⟨ps, hps⟩ := hobj
    have hunique : ∀ {x : Json}, (chars "params", x) ∈ ms → x = .obj ps :=
      fun hx => eq_of_mem_nodup hnodup hx hps
    obtain hnull | ⟨_, l, heq, hl⟩ := haccepted _ hps
    · cases hnull
    cases heq
    have hdecode : (Json.obj ps).decodeObject = some (some (SortedMap.ofList l)) := by
      rw [Json.decodeObject, hl]
      rfl
    refine ⟨some (SortedMap.ofList l), fun o => ⟨fun h => ?_, ?_⟩, ?_, fun k v => ?_⟩
    · exact Option.some.inj ((h.present _ hps).symm.trans hdecode)
    · rintro rfl
      refine ⟨fun x hx => ?_, fun h => absurd hps (h _)⟩
      rw [hunique hx, hdecode]
    · exact iff_of_true rfl ⟨ps, hps⟩
    · show mapGet k (mapOf l) = some v ↔ _
      rw [mapGet_mapOf_iff]
      constructor
      · intro h
        exact ⟨ps, l, hps, hl, h⟩
      · rintro ⟨ps', l', hps', hl', h⟩
        cases hunique hps'
        cases hl.symm.trans hl'
        exact h
  · -- without an object they are nil
    have hnull : ∀ x, (chars "params", x) ∈ ms → x = .null := by
      intro x hx
      rcases haccepted x hx with h | ⟨ps, -, rfl, -⟩
      · exact h
      · exact absurd ⟨ps, hx⟩ hobj
    refine ⟨none, fun o => ⟨fun h => ?_, ?_⟩, ?_, fun k v => ?_⟩
    · by_cases hsome : ∃ x, (chars "params", x) ∈ ms
      · obtain ⟨x, hx⟩ := hsome
        have hdecode := h.present x hx
        rw [hnull x hx] at hdecode
        exact (Option.some.inj hdecode).symm
      · exact h.absent fun x hx => hsome ⟨x, hx⟩
    · rintro rfl
      refine ⟨fun x hx => ?_, fun _ => rfl⟩
      rw [hnull x hx]
      rfl
    · simp [hobj]
    · refine iff_of_false (by simp) ?_
      rintro ⟨ps, l, hps, -⟩
      exact hobj ⟨ps, hps⟩

theorem object_eq_iff {o o' : Object} : o = o' ↔ (o.isSome ↔ o'.isSome) ∧
    ∀ k v, (o.bind fun m => m.get? k) = some v ↔ (o'.bind fun m => m.get? k) = some v := by
  constructor
  · rintro rfl
    simp
  · rintro ⟨hsome, hget⟩
    cases o with
    | none =>
      cases o' with
      | none => rfl
      | some m' => simp at hsome
    | some m =>
      cases o' with
      | none => simp at hsome
      | some m' => exact congrArg some (SortedMap.ext_get? fun k => Option.ext (hget k))

/-- The parameters that were read are the exact ones. -/
theorem seenParams_iff (hnodup : (ms.map Prod.fst).Nodup) {o : Object}
    (h : (Json.variants (lit "params") ms).foldlM Json.intoMap none = some o) :
    SeenParams ms o ↔
      ((∃ before ps, Json.variants (lit "params") ms = before ++ [.obj ps]) ↔
        ∃ ps, (chars "params", .obj ps) ∈ ms) ∧
      ∀ k v, Json.LastEntry (Json.variants (lit "params") ms) k v ↔
        ∃ ps l, (chars "params", .obj ps) ∈ ms ∧ Json.decodeMembers ps = some l ∧
          IsLatest l k v := by
  obtain ⟨exact, hexact, hsome, hget⟩ := exists_seenParams hnodup fun x hx => by
    obtain ⟨_, _, hinto⟩ := Json.exists_into_of_mem h
      (Json.mem_variants.mpr ⟨_, hx, by decide⟩)
    exact intoMap_cases hinto
  obtain ⟨hsome', hget'⟩ := Json.foldlM_intoMap h
  rw [hexact, object_eq_iff, hsome, hsome']
  simp only [hget, hget']

/-- The method that was read is the exact one. -/
theorem seenMethod_iff {s : Bytes} (hne : s ≠ [])
    (h : (Json.variants (lit "method") ms).foldlM Json.intoString [] = some s) :
    (∃ cs, (chars "method", .str cs) ∈ ms ∧ s = utf8 cs) ↔
      ∃ cs, (chars "method", .str cs) ∈ ms ∧
        Json.LastText (Json.variants (lit "method") ms) cs := by
  refine exists_congr fun cs => and_congr_right fun _ => ⟨fun heq => ?_, fun hlast => ?_⟩
  · obtain ⟨cs', hlast⟩ := Json.exists_lastText h hne
    have heq' := Json.eq_of_lastText hlast h
    rw [utf8_injective (heq.symm.trans heq')]
    exact hlast
  · exact Json.eq_of_lastText hlast h

theorem setFields_of_extract {strict : Bool} {body : Bytes} {req : MCPRequest}
    {taskID method : Bytes} (hread : readText body = some (.obj ms))
    (hextract : extractTaskMetadata strict body = .ok (req, taskID, method)) :
    Json.setFields MCPRequest.set ms {} = some req ∧ req.method ≠ [] ∧ method = req.method := by
  obtain ⟨-, -, hreq, hmethod, -, -, heq⟩ := (extractTaskMetadata_eq_ok strict).mp hextract
  rcases unmarshalStruct_eq_some.mp hreq with ⟨hnull, -⟩ | ⟨ms', hms', hset⟩
  · rw [hnull] at hread
    cases hread
  · cases hread.symm.trans hms'
    exact ⟨hset, hmethod, heq⟩

/-- The only members for the field `s` are spelled as it is. -/
def OnlyExact (ms : List (List Char × Json)) (s : String) : Prop :=
  ∀ m ∈ ms, Json.foldName m.1 = lit s → m.1 = chars s

instance (ms : List (List Char × Json)) (s : String) : Decidable (OnlyExact ms s) :=
  inferInstanceAs (Decidable (∀ m ∈ ms, Json.foldName m.1 = lit s → m.1 = chars s))

theorem OnlyExact.mem_iff {s : String} (h : OnlyExact ms s)
    (hfold : Json.foldName (chars s) = lit s) {x : Json} :
    (chars s, x) ∈ ms ↔ x ∈ Json.variants (lit s) ms := by
  rw [Json.mem_variants]
  constructor
  · intro hx
    exact ⟨_, hx, hfold⟩
  · rintro ⟨name, hx, hname⟩
    obtain rfl : name = chars s := h _ hx hname
    exact hx

/-- Then there is at most one. -/
theorem OnlyExact.variants_eq {s : String} (h : OnlyExact ms s)
    (hnodup : (ms.map Prod.fst).Nodup) :
    Json.variants (lit s) ms = [] ∨ ∃ x, Json.variants (lit s) ms = [x] := by
  unfold Json.variants
  have hsub : (ms.filter fun m => Json.foldName m.1 = lit s).Sublist ms := List.filter_sublist
  have hnames : ∀ m ∈ ms.filter fun m => Json.foldName m.1 = lit s, m.1 = chars s := by
    intro m hm
    rw [List.mem_filter, decide_eq_true_eq] at hm
    exact h m hm.1 hm.2
  generalize ms.filter (fun m => Json.foldName m.1 = lit s) = l at hsub hnames
  match l with
  | [] => exact .inl rfl
  | [m] => exact .inr ⟨m.2, rfl⟩
  | m :: m' :: rest =>
    have hne := (hsub.map Prod.fst).nodup hnodup
    simp [hnames m (by simp), hnames m' (by simp)] at hne

/-- **Without other spellings the exact members are what is read.** -/
theorem unshadowed_of_names {strict : Bool} {body : Bytes} {req : MCPRequest}
    {taskID method : Bytes} (hread : readText body = some (.obj ms))
    (hnodup : (ms.map Prod.fst).Nodup)
    (hextract : extractTaskMetadata strict body = .ok (req, taskID, method))
    (hmethod : OnlyExact ms "method") (hparams : OnlyExact ms "params") : Unshadowed ms := by
  obtain ⟨hset, hne, -⟩ := setFields_of_extract hread hextract
  have hexact : ∀ x, (chars "params", x) ∈ ms ↔ x ∈ Json.variants (lit "params") ms :=
    fun x => hparams.mem_iff (by decide)
  refine ⟨?_, ?_, fun k v => ?_⟩
  · obtain ⟨cs, hlast⟩ := Json.exists_lastText (method_of_setFields hset) hne
    refine ⟨cs, (hmethod.mem_iff (by decide)).mpr ?_, hlast⟩
    obtain ⟨before, after, heq, -⟩ := hlast
    simp [heq]
  · simp only [hexact]
    rcases hparams.variants_eq hnodup with h | ⟨x, h⟩
    · simp [h]
    · rw [h]
      constructor
      · rintro ⟨before, ps, heq⟩
        exact ⟨ps, by simp [heq]⟩
      · rintro ⟨ps, hps⟩
        exact ⟨[], ps, by rw [List.mem_singleton.mp hps, List.nil_append]⟩
  · simp only [hexact]
    rcases hparams.variants_eq hnodup with h | ⟨x, h⟩
    · simp [h, Json.LastEntry]
    · have hentry : Json.LastEntry ([] ++ [x]) k v ↔ _ := Json.lastEntry_concat
      rw [List.nil_append] at hentry
      rw [h, hentry]
      constructor
      · rintro (⟨ps, l, rfl, hl, hlatest⟩ | ⟨-, -, _, _, _, _, hnil, -⟩)
        · exact ⟨ps, l, List.mem_singleton_self _, hl, hlatest⟩
        · simp at hnil
      · rintro ⟨ps, l, hps, hl, hlatest⟩
        exact .inl ⟨ps, l, (List.mem_singleton.mp hps).symm, hl, hlatest⟩

/-- **The rules and the event see the exact members** of those bodies whose members with other
spellings say nothing else. -/
theorem seenExactly_iff (strict : Bool) (body : Bytes) (ms : List (List Char × Json))
    (req : MCPRequest) (taskID method : Bytes) (hread : readText body = some (.obj ms))
    (hnodup : (ms.map Prod.fst).Nodup)
    (hextract : extractTaskMetadata strict body = .ok (req, taskID, method)) :
    (SeenExactly ms method req.params ∧ ∀ env eng e,
      (interceptBody strict env eng body).2.submitted = some e →
        SeenExactly ms e.method e.params) ↔ Unshadowed ms := by
  obtain ⟨hset, hne, rfl⟩ := setFields_of_extract hread hextract
  have hmethod := seenMethod_iff hne (method_of_setFields hset)
  have hparams := seenParams_iff hnodup (params_of_setFields hset)
  have hseen : SeenExactly ms req.method req.params ↔ Unshadowed ms := by
    rw [SeenExactly, hmethod, hparams]
    exact ⟨fun h => ⟨h.1, h.2.1, h.2.2⟩, fun h => ⟨h.method, h.params, h.entries⟩⟩
  rw [← hseen]
  refine ⟨And.left, fun h => ⟨h, fun env eng e hsubmitted => ?_⟩⟩
  -- the event is filled in from the same request
  obtain ⟨req', taskID', method', _, _, _, hextract', -, rfl⟩ :=
    interceptBody_submitted strict hsubmitted
  cases hextract.symm.trans hextract'
  exact h

/-- A call as the protocol spells it, with a member that no field has. -/
def plainMembers : List (List Char × Json) :=
  [(chars "jsonrpc", .str (chars "2.0")), (chars "trace", .bool true),
    (chars "method", .str (chars "fs.delete")),
    (chars "params", .obj [(chars "path", .str (chars "/etc"))])]

def plainBody : Bytes := utf8 (Json.render goEscape (.obj plainMembers))

/-- The method of the plain call is seen, and so are its parameters. -/
theorem seenExactly_plain : ∃ req,
    extractTaskMetadata true plainBody = .ok (req, [], lit "fs.delete") ∧
      SeenExactly plainMembers (lit "fs.delete") req.params := by
  have htext : readText plainBody = some (.obj plainMembers) := by
    rw [plainBody, readText_render]
    exact if_pos (by decide)
  have hseen : (extractTaskMetadata true plainBody).map Prod.snd = .ok ([], lit "fs.delete") := by
    decide +kernel
  cases hextract : extractTaskMetadata true plainBody with
  | error f =>
    rw [hextract] at hseen
    cases hseen
  | ok r =>
    obtain ⟨req, taskID, method⟩ := r
    rw [hextract] at hseen
    cases hseen
    have hnodup : (plainMembers.map Prod.fst).Nodup := by decide
    have hunshadowed := unshadowed_of_names htext hnodup hextract (by decide) (by decide)
    exact ⟨req, rfl, ((seenExactly_iff true plainBody plainMembers req _ _ htext hnodup
      hextract).mpr hunshadowed).1⟩

/-- A call with a second method under another spelling. -/
def shadowedMembers : List (List Char × Json) :=
  [(chars "jsonrpc", .str (chars "2.0")), (chars "method", .str (chars "fs.delete")),
    (chars "Method", .str (chars "fs.list"))]

def shadowedBody : Bytes :=
  lit "\x7b\"jsonrpc\":\"2.0\",\"method\":\"fs.delete\",\"Method\":\"fs.list\"\x7d"

/-- **The second method is the one that is seen.** -/
theorem seenExactly_shadowed :
    readText shadowedBody = some (.obj shadowedMembers) ∧ (shadowedMembers.map Prod.fst).Nodup ∧
      (chars "method", Json.str (chars "fs.delete")) ∈ shadowedMembers ∧
      (extractTaskMetadata true shadowedBody).map Prod.snd = .ok ([], lit "fs.list") ∧
      ∀ params, ¬ SeenExactly shadowedMembers (lit "fs.list") params := by
  have hbody : shadowedBody = utf8 (Json.render goEscape (.obj shadowedMembers)) := by
    decide +kernel
  refine ⟨?_, by decide, by simp [shadowedMembers], by decide +kernel, fun params h => ?_⟩
  · rw [hbody, readText_render]
    exact if_pos (by decide)
  · obtain ⟨cs, hcs, hmethod⟩ := h.1
    simp +decide [shadowedMembers] at hcs
    subst hcs
    exact absurd hmethod (by decide)

end Logryph
