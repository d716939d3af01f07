import TaskForge.HandlerProtocol

/-!
# Status documents

What `set_job_status` leaves in a document: the status it was given, the value of
every update, and the old value of every other field.  A document built from a
readable one is readable again as soon as its strings are well-formed UTF-8.
-/

namespace TaskForge

open Json (Object)

/-! ### Merging updates -/

/-- A field after an update. -/
def updatedField (old : Option (Json Bytes)) : Option (Json Bytes) → Option (Json Bytes)
  | none => old
  | some .null => none
  | some value => some value

theorem get_applyUpdate_self (document : Object) (key : Bytes) (value : Json Bytes) :
    (applyUpdate document (key, value)).get key = updatedField (document.get key) (some value) := by
  unfold applyUpdate updatedField
  cases value <;> simp

theorem get_applyUpdate_ne (document : Object) {key other : Bytes} (h : other ≠ key)
    (value : Json Bytes) :
    (applyUpdate document (key, value)).get other = document.get other := by
  unfold applyUpdate
  cases value <;> simp [Object.get_set_ne, Object.get_erase_ne, h]

/-- Each update acts on its own field only. -/
theorem get_foldl_applyUpdate (updates : Object) (document : Object) (key : Bytes)
    (hnodup : updates.keys.Nodup) :
    Object.get (updates.foldl applyUpdate document) key =
      updatedField (document.get key) (updates.get key) := by
  induction updates generalizing document with
  | nil => rfl
  | cons update rest ih =>
    obtain ⟨k, v⟩ := update
    have hparts := List.nodup_cons.mp hnodup
    rw [List.foldl_cons, ih _ hparts.2]
    by_cases hk : key = k
    · subst hk
      have hfresh : Object.get rest key = none := Object.get_eq_none hparts.1
      rw [hfresh, Object.get_cons_self, ← get_applyUpdate_self]
      rfl
    · rw [get_applyUpdate_ne _ hk, Object.get_cons_ne hk]

section Merge

variable {codec : JsonCodec} {existing : Option Bytes} {jobId status : Bytes}
  {updates : Object} {now : UtcTime}

/-- The document `set_job_status` starts from. -/
def baseDocument (codec : JsonCodec) (existing : Option Bytes) : Object :=
  (existing.bind codec.parseObject).getD []

theorem get_mergeStatus (hnodup : updates.keys.Nodup) {key : Bytes}
    (hkey : key ≠ "job_id" ∧ key ≠ "status" ∧ key ≠ "updated_at") :
    (mergeStatus codec existing jobId status updates now).get key =
      updatedField ((baseDocument codec existing).get key) (updates.get key) := by
  unfold mergeStatus
  rw [Object.get_set_ne _ hkey.2.2, get_foldl_applyUpdate _ _ _ hnodup,
    Object.get_set_ne _ hkey.2.1, Object.get_set_ne _ hkey.1]
  rfl

theorem get_mergeStatus_status (hnodup : updates.keys.Nodup)
    (hstatus : updates.get "status" = none) :
    (mergeStatus codec existing jobId status updates now).get "status" =
      some (.string status) := by
  unfold mergeStatus
  rw [Object.get_set_ne _ (by decide), get_foldl_applyUpdate _ _ _ hnodup, hstatus,
    Object.get_set_self]
  rfl

end Merge

/-! ### The updates of the handlers -/

/-- Updates as the handlers build them: distinct keys, none of them a field that
    `set_job_status` writes itself. -/
structure ProperUpdates (updates : Object) : Prop where
  nodup : updates.keys.Nodup
  jobId : updates.get "job_id" = none
  status : updates.get "status" = none
  updatedAt : updates.get "updated_at" = none

theorem ProperUpdates.set {updates : Object} (h : ProperUpdates updates) {key : Bytes}
    (hkey : key ≠ "job_id" ∧ key ≠ "status" ∧ key ≠ "updated_at") (value : Json Bytes) :
    ProperUpdates (updates.set key value) where
  nodup := Object.nodup_keys_set h.nodup _ _
  jobId := by rw [Object.get_set_ne _ (Ne.symm hkey.1), h.jobId]
  status := by rw [Object.get_set_ne _ (Ne.symm hkey.2.1), h.status]
  updatedAt := by rw [Object.get_set_ne _ (Ne.symm hkey.2.2), h.updatedAt]

theorem properUpdates_nil : ProperUpdates [] := ⟨by simp [Object.keys], rfl, rfl, rfl⟩

theorem contractFields_proper (message : Object) : ProperUpdates (contractFields message) := by
  unfold contractFields taskNameField
  repeat' split
  all_goals
    first
    | exact (properUpdates_nil.set (by decide) _).set (by decide) _
    | exact properUpdates_nil.set (by decide) _
    | exact properUpdates_nil

theorem failureUpdates_proper (message : Object) (reason : Bytes) :
    ProperUpdates (failureUpdates message reason) :=
  (contractFields_proper message).set (by decide) _

theorem retryUpdates_proper (message : Object) (reason : Bytes) (tryCount : Int32) :
    ProperUpdates (retryUpdates message reason tryCount) :=
  (failureUpdates_proper message reason).set (by decide) _

theorem doneUpdates_proper (message : Object) (result : TaskExecutionResult)
    (uploaded : List (Json Bytes)) : ProperUpdates (doneUpdates message result uploaded) :=
  ((((contractFields_proper message).set (by decide) _).set (by decide) _).set
    (by decide) _).set (by decide) _

theorem StatusWrite.proper {codec : JsonCodec} {body : Bytes} {job : JobId}
    {stage stage' : Stage} {status : Bytes} {updates : Object}
    (h : StatusWrite codec body job stage status updates stage') : ProperUpdates updates := by
  cases h with
  | reject => exact failureUpdates_proper _ _
  | unregistered => exact failureUpdates_proper _ _
  | running => exact contractFields_proper _
  | done => exact doneUpdates_proper _ _ _
  | unrecorded => exact failureUpdates_proper _ _
  | exhausted => exact retryUpdates_proper _ _ _
  | queued => exact retryUpdates_proper _ _ _

/-! ### Readability -/

theorem ascii_formatTimestamp (now : UtcTime) : ∀ b ∈ formatTimestamp now, b < 128 := by
  have hdigits : ∀ n, ∀ b ∈ Bytes.decimal n, b < 128 := by
    intro n b hb
    have hdigit := Bytes.isDigit_of_mem_decimal hb
    simp only [Bytes.isDigit, Bool.and_eq_true, decide_eq_true_eq] at hdigit
    exact UInt8.lt_of_le_of_lt hdigit.2 (by decide)
  have htwo : ∀ n, ∀ b ∈ twoDigits n, b < 128 := by
    intro n
    unfold twoDigits
    split
    · exact List.forall_mem_cons.mpr ⟨by decide, hdigits n⟩
    · exact hdigits n
  have hcons : ∀ {b : UInt8} {s : Bytes}, b < 128 → (∀ c ∈ s, c < 128) → ∀ c ∈ b :: s, c < 128 :=
    fun hb hs => List.forall_mem_cons.mpr ⟨hb, hs⟩
  unfold formatTimestamp
  simp only [List.forall_mem_append]
  exact ⟨⟨⟨⟨⟨⟨hdigits _, hcons (by decide) (htwo _)⟩, hcons (by decide) (htwo _)⟩,
    hcons (by decide) (htwo _)⟩, hcons (by decide) (htwo _)⟩, hcons (by decide) (htwo _)⟩,
    List.forall_mem_singleton.mpr (by decide)⟩

section Formed

variable {p : Bytes → Prop} [DecidablePred p] {n : Nat}

theorem formedAt_foldl_applyUpdate (updates : Object) (document : Object)
    (hupdates : ∀ update ∈ updates, p update.1 ∧ update.2.FormedAt p n)
    (hdocument : (Json.object document).FormedAt p (n + 1)) :
    (Json.object (updates.foldl applyUpdate document)).FormedAt p (n + 1) := by
  induction updates generalizing document with
  | nil => exact hdocument
  | cons update rest ih =>
    refine ih _ (fun u hu => hupdates u (List.mem_cons_of_mem _ hu)) ?_
    have hupdate := hupdates update (List.mem_cons_self ..)
    unfold applyUpdate
    split
    · exact Json.formedAt_erase _ hdocument
    · exact Json.formedAt_set hdocument hupdate.1 hupdate.2

variable (hp : TextClass p)

include hp

omit [DecidablePred p] in
theorem TextClass.timestamp (now : UtcTime) : p (formatTimestamp now) :=
  hp.ascii _ (ascii_formatTimestamp now)

/-- A string field added to updates. -/
theorem formedAt_set_string {o : Object} (ho : (Json.object o).FormedAt p (n + 1))
    (key : String) {s : Bytes} (hs : p s) :
    (Json.object (o.set key (.string s))).FormedAt p (n + 1) :=
  Json.formedAt_set ho (hp.literal key) ((Json.formedAt_string_iff _ _).mpr hs)

theorem formedAt_mergeStatus {codec : JsonCodec} {existing : Option Bytes}
    {jobId status : Bytes} {updates : Object} {now : UtcTime}
    (hbase : (Json.object (baseDocument codec existing)).FormedAt p (n + 1))
    (hupdates : (Json.object updates).FormedAt p (n + 1)) (hjob : p jobId) (hstatus : p status) :
    (Json.object (mergeStatus codec existing jobId status updates now)).FormedAt p (n + 1) := by
  refine formedAt_set_string hp ?_ "updated_at" (hp.timestamp now)
  refine formedAt_foldl_applyUpdate _ _ ((Json.formedAt_object_iff _ _).mp hupdates).2 ?_
  exact formedAt_set_string hp (formedAt_set_string hp hbase "job_id" hjob) "status" hstatus

theorem formedAt_taskNameField {message : Object}
    (hmessage : (Json.object message).strings p = true) :
    (Json.object (taskNameField message)).FormedAt p (n + 1) := by
  have hnil : (Json.object []).FormedAt p (n + 1) :=
    (Json.formedAt_object_iff _ _).mpr (by simp [Object.keys])
  unfold taskNameField
  split
  · rename_i task htask
    split
    · rename_i name hname
      have hvalue := Json.strings_of_get (Json.strings_of_get hmessage htask) hname
      exact formedAt_set_string hp hnil "task_name" (Json.of_strings_string hvalue)
    · exact hnil
  · exact hnil

/-- The contract fields are strings of the message. -/
theorem formedAt_contractFields {message : Object}
    (hmessage : (Json.object message).strings p = true) :
    (Json.object (contractFields message)).FormedAt p (n + 1) := by
  unfold contractFields
  dsimp only
  split
  · rename_i enqueuedAt hget
    have hvalue := Json.strings_of_get hmessage hget
    exact formedAt_set_string hp (formedAt_taskNameField hp hmessage) "enqueued_at"
      (Json.of_strings_string hvalue)
  · exact formedAt_taskNameField hp hmessage

theorem formedAt_failureUpdates {message : Object} {reason : Bytes}
    (hmessage : (Json.object message).strings p = true) (hreason : p reason) :
    (Json.object (failureUpdates message reason)).FormedAt p (n + 1) :=
  formedAt_set_string hp (formedAt_contractFields hp hmessage) "failure_reason" hreason

theorem formedAt_retryUpdates {message : Object} {reason : Bytes} {tryCount : Int32}
    (hmessage : (Json.object message).strings p = true) (hreason : p reason) :
    (Json.object (retryUpdates message reason tryCount)).FormedAt p (n + 1) :=
  Json.formedAt_set (formedAt_failureUpdates hp hmessage hreason) (hp.literal _)
    (Json.formedAt_int64 _ _)

theorem formedAt_doneUpdates {message : Object} {result : TaskExecutionResult}
    {uploaded : List (Json Bytes)} (hmessage : (Json.object message).strings p = true)
    (htail : p result.stdoutTail) (huploaded : (Json.array uploaded).FormedAt p n) :
    (Json.object (doneUpdates message result uploaded)).FormedAt p (n + 1) := by
  refine Json.formedAt_set ?_ (hp.literal _) (Json.formedAt_null _)
  refine Json.formedAt_set ?_ (hp.literal _) huploaded
  refine formedAt_set_string hp ?_ "stdout_tail" htail
  exact Json.formedAt_set (formedAt_contractFields hp hmessage) (hp.literal _)
    (Json.formedAt_int64 _ _)

end Formed

theorem baseDocument_readable (codec : JsonCodec) (existing : Option Bytes) :
    (Json.object (baseDocument codec existing)).Readable := by
  unfold baseDocument
  cases hparse : existing.bind codec.parseObject with
  | none => exact (Json.formedAt_object_iff _ _).mpr (by simp [Object.keys])
  | some o =>
    obtain ⟨text, -, htext⟩ := Option.bind_eq_some_iff.mp hparse
    exact codec.readable_of_parse text _ (codec.parseObject_eq_some.mp htext)

theorem StatusWrite.formed {codec : JsonCodec} {body : Bytes} {job : JobId}
    {stage stage' : Stage} {status : Bytes} {updates : Object}
    (h : StatusWrite codec body job stage status updates stage') :
    (Json.object updates).FormedAt (fun _ => True) Json.maxDepth := by
  cases h with
  | reject => exact formedAt_failureUpdates anyText (Json.strings_any _) trivial
  | unregistered => exact formedAt_failureUpdates anyText (Json.strings_any _) trivial
  | running => exact formedAt_contractFields anyText (Json.strings_any _)
  | done _ _ _ huploaded =>
    exact formedAt_doneUpdates anyText (Json.strings_any _) trivial (huploaded.mono (by decide))
  | unrecorded => exact formedAt_failureUpdates anyText (Json.strings_any _) trivial
  | exhausted => exact formedAt_retryUpdates anyText (Json.strings_any _) trivial
  | queued => exact formedAt_retryUpdates anyText (Json.strings_any _) trivial

/-- What is stored is well-formed up to its strings. -/
theorem StatusWrite.formed_document {codec : JsonCodec} {body : Bytes} {job : JobId}
    {stage stage' : Stage} {status : Bytes} {updates : Object}
    (h : StatusWrite codec body job stage status updates stage') (seen : Option Bytes)
    (now : UtcTime) :
    (Json.object (mergeStatus codec seen job.bytes status updates now)).FormedAt (fun _ => True)
      Json.maxDepth :=
  formedAt_mergeStatus anyText (baseDocument_readable codec seen).any h.formed trivial trivial

/-! ### Reading a document back -/

/-- The stored text of a document is read back as that document, or not at all. -/
theorem parse_serialize_formed (codec : JsonCodec) {document : Object}
    (h : (Json.object document).FormedAt (fun _ => True) Json.maxDepth) :
    codec.parse (codec.serialize (.object document)) = some (.object document) ∨
      codec.parse (codec.serialize (.object document)) = none := by
  cases hutf8 : (Json.object document).utf8 with
  | true => exact Or.inl (codec.parse_serialize _ ⟨hutf8, h.canonical, h.depth⟩)
  | false => exact Or.inr (codec.parse_serialize_of_not_utf8 _ hutf8)

/-- A document whose new texts are well-formed is read back as stored. -/
theorem parse_serialize_mergeStatus (codec : JsonCodec) (existing : Option Bytes) (job : JobId)
    (status : String) {updates : Object} (now : UtcTime)
    (hupdates : (Json.object updates).Readable) :
    codec.parse (codec.serialize (.object (mergeStatus codec existing job.bytes status updates now)))
      = some (.object (mergeStatus codec existing job.bytes status updates now)) :=
  codec.parse_serialize _ (formedAt_mergeStatus utf8Text (baseDocument_readable codec existing)
    hupdates (utf8Text.jobId job) (utf8Text.literal status))

theorem documentStatus_eq {codec : JsonCodec} {text : Bytes} {document : Object}
    {status : Bytes} (hparse : codec.parse text = some (.object document))
    (hstatus : document.get "status" = some (.string status)) :
    documentStatus codec (some text) = some status := by
  have hobject : codec.parseObject text = some document := codec.parseObject_eq_some.mpr hparse
  simp [documentStatus, hobject, hstatus]

theorem exists_of_documentStatus {codec : JsonCodec} {text : Option Bytes} {status : Bytes}
    (h : documentStatus codec text = some status) :
    ∃ t, ∃ document : Object, text = some t ∧ codec.parse t = some (.object document) ∧
      document.get "status" = some (.string status) := by
  unfold documentStatus at h
  split at h
  · rename_i status' hget
    cases h
    obtain ⟨document, hdocument, hstatus⟩ := Option.bind_eq_some_iff.mp hget
    obtain ⟨t, rfl, hparse⟩ := Option.bind_eq_some_iff.mp hdocument
    exact ⟨t, document, rfl, codec.parseObject_eq_some.mp hparse, hstatus⟩
  · cases h

theorem documentStatus_none {codec : JsonCodec} {text : Bytes} (hparse : codec.parse text = none) :
    documentStatus codec (some text) = none := by
  have hobject : codec.parseObject text = none := by simp [JsonCodec.parseObject, hparse]
  simp [documentStatus, hobject]

theorem StatusWrite.get_status {codec : JsonCodec} {body : Bytes} {job : JobId}
    {stage stage' : Stage} {status : Bytes} {updates : Object}
    (h : StatusWrite codec body job stage status updates stage') (seen : Option Bytes)
    (now : UtcTime) :
    (mergeStatus codec seen job.bytes status updates now).get "status" = some (.string status) :=
  get_mergeStatus_status h.proper.nodup h.proper.status

end TaskForge
