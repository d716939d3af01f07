import TaskForge.TaskForgeWorker

/-!
# The texts a handler builds

Error texts and result lists are assembled from literals, numbers, configured
strings, strings of the message and what the outside answers.  For any class of
texts closed under these operations (`TextClass`), code that only gets such texts
only produces such texts.  Well-formed UTF-8 is one such class; the class of all
texts is another, for which the statements say which effects the code performs
and what shape its results have.
-/

namespace TaskForge

open Json (Object)

/-- A class of texts closed under what the handlers do with texts. -/
structure TextClass (p : Bytes → Prop) : Prop where
  literal : ∀ s : String, p (Bytes.ofString s)
  ascii : ∀ s : Bytes, (∀ b ∈ s, b < 128) → p s
  append : ∀ {s t : Bytes}, p s → p t → p (s ++ t)
  cStr : ∀ {s : Bytes}, p s → p (Bytes.cStr s)

theorem anyText : TextClass fun _ => True :=
  ⟨fun _ => trivial, fun _ _ => trivial, fun _ _ => trivial, fun _ => trivial⟩

theorem utf8Text : TextClass Bytes.Utf8 :=
  ⟨Bytes.utf8_ofString, fun _ => Bytes.utf8_of_ascii, Bytes.Utf8.append, Bytes.utf8_cStr⟩

/-- Effects outside Redis, the retry files, the queue and the process. -/
def Effect.isNeutral : Effect → Bool
  | .redisGet _ | .redisSet .. | .runProcess .. | .dlqRead _ | .dlqWrite .. | .dlqRemove _
  | .sqsSend .. => false
  | _ => true

/-- The texts in a response belong to the class; of a captured output, the tail. -/
def goodResponse (p : Bytes → Prop) : (e : Effect) → Response e → Prop
  | .s3Download .., r => ∀ error, r = .error error → p error
  | .s3Upload .., r => ∀ error, r = .error error → p error
  | .s3Presign .., r => (∀ error, r = .error error → p error) ∧ ∀ url, r = .ok url → p url
  | .listDirectory _, r => (∀ error, r = .error error → p error) ∧
      ∀ listing, r = .ok listing → ∀ entry ∈ listing.entries, entry.isRegularFile = true →
        p entry.filename
  | .runProcess .., r => ∀ error, r = .error error → p error
  | .readFile _, r => ∀ content, r = some content → p (stdoutTail content)
  | .sqsSend .., r => ∀ error, r = .error error → p error
  | _, _ => True

theorem goodResponse_any (e : Effect) (r : Response e) : goodResponse (fun _ => True) e r := by
  cases e <;> simp [goodResponse]

/-- The configured texts belong to the class. -/
structure ConfiguredTexts (p : Bytes → Prop) (worker : Worker) : Prop where
  rootPath : p worker.configurations.rootPath
  tempDirectory : p worker.tempDirectory
  whitelist : ∀ definition ∈ worker.configurations.taskWhitelist,
    p definition.name ∧ p definition.executable

/-- The text of an error belongs to the class. -/
def ErrorText (p : Bytes → Prop) {α : Type} (result : Except Bytes α) : Prop :=
  ∀ error, result = .error error → p error

theorem errorText_ok {p : Bytes → Prop} {α : Type} (a : α) :
    ErrorText p (.ok a : Except Bytes α) := fun _ h => nomatch h

theorem errorText_error {p : Bytes → Prop} {α : Type} {error : Bytes} (h : p error) :
    ErrorText p (.error error : Except Bytes α) := fun _ he => by cases he; exact h

variable {p : Bytes → Prop}

section Texts

variable (hp : TextClass p)

include hp

theorem TextClass.decimalInt (i : Int) : p (Bytes.decimalInt i) := by
  refine hp.ascii _ fun b hb => ?_
  rcases Bytes.mem_decimalInt hb with rfl | hdigit
  · decide
  · simp only [Bytes.isDigit, Bool.and_eq_true, decide_eq_true_eq] at hdigit
    exact UInt8.lt_of_le_of_lt hdigit.2 (by decide)

theorem TextClass.jobId (job : JobId) : p job.bytes := by
  refine hp.ascii _ fun b hb => ?_
  have h := isJobIdByte_of_mem job hb
  simp only [isJobIdByte, Bool.or_eq_true, Bool.and_eq_true, decide_eq_true_eq, beq_iff_eq] at h
  rcases h with (((h | h) | h) | rfl) | rfl
  · exact UInt8.lt_of_le_of_lt h.2 (by decide)
  · exact UInt8.lt_of_le_of_lt h.2 (by decide)
  · exact UInt8.lt_of_le_of_lt h.2 (by decide)
  · decide
  · decide

theorem TextClass.joinPath {base rest : Bytes} (hbase : p base) (hrest : p rest) :
    p (TaskForge.joinPath base rest) := by
  unfold TaskForge.joinPath
  split
  · exact hrest
  split
  · exact hp.append hbase hrest
  · have hslash : p [47] := hp.ascii _ (List.forall_mem_singleton.mpr (by decide))
    exact hp.append hbase (hp.append hslash hrest)

/-- An error text in brackets: `before [subject]: detail`. -/
theorem TextClass.bracketed {subject detail : Bytes} (before after : String)
    (hsubject : p subject) (hdetail : p detail) :
    p (Bytes.ofString before ++ subject ++ Bytes.ofString after ++ detail) :=
  hp.append (hp.append (hp.append (hp.literal _) hsubject) (hp.literal _)) hdetail

end Texts

/-! ### The texts of validation errors -/

theorem errorText_bind {α β : Type} {x : Except Bytes α} {f : α → Except Bytes β}
    (hx : ErrorText p x) (hf : ∀ a, x = .ok a → ErrorText p (f a)) : ErrorText p (x >>= f) := by
  cases x with
  | error e => exact errorText_error (hx e rfl)
  | ok a => exact hf a rfl

section Validation

variable [DecidablePred p] (hp : TextClass p)

include hp

omit [DecidablePred p] in
theorem requireNonEmptyString_text (o : Object) (key : Bytes) (error : String) :
    ErrorText p (requireNonEmptyString o key error) := by
  unfold requireNonEmptyString
  split
  · split
    · exact errorText_error (hp.literal error)
    · exact errorText_ok ()
  · exact errorText_error (hp.literal error)

omit [DecidablePred p] in
theorem checkTask_text (message : Object) : ErrorText p (checkTask message) := by
  have harguments : ∀ values, ErrorText p (checkArgumentList values) := by
    intro values
    fun_induction checkArgumentList values with
    | case1 => exact errorText_ok ()
    | case2 _ _ ih => exact ih
    | case3 => exact errorText_error (hp.literal _)
  unfold checkTask
  split
  · refine errorText_bind (requireNonEmptyString_text hp _ _ _) fun _ _ => ?_
    refine errorText_bind ?_ fun _ _ => ?_
    · unfold checkArguments
      split
      · exact errorText_ok ()
      · exact harguments _
      · exact errorText_error (hp.literal _)
    · unfold checkTimeout
      split
      · exact errorText_ok ()
      · exact errorText_ok ()
      · exact errorText_error (hp.literal _)
  · exact errorText_error (hp.literal _)

omit [DecidablePred p] in
theorem checkDownloads_text (message : Object) : ErrorText p (checkDownloads message) := by
  have hentry : ∀ entry, ErrorText p (checkDownload entry) := by
    intro entry
    unfold checkDownload
    split
    · refine errorText_bind (requireNonEmptyString_text hp _ _ _) fun _ _ => ?_
      refine errorText_bind (requireNonEmptyString_text hp _ _ _) fun _ _ => ?_
      split
      · exact errorText_ok ()
      · exact errorText_error (hp.literal _)
    · exact errorText_error (hp.literal _)
  have hentries : ∀ entries, ErrorText p (checkDownloadList entries) := by
    intro entries
    induction entries with
    | nil => exact errorText_ok ()
    | cons entry rest ih => exact errorText_bind (hentry entry) fun _ _ => ih
  unfold checkDownloads
  split
  · exact hentries _
  · exact errorText_error (hp.literal _)

/-- Only the error about the mode quotes the message. -/
theorem validateRequest_text {message : Object}
    (hmessage : (Json.object message).strings p = true) :
    ErrorText p (validateRequest message) := by
  refine errorText_bind (requireNonEmptyString_text hp _ _ _) fun _ _ => ?_
  refine errorText_bind ?_ fun _ _ => errorText_bind ?_ fun _ _ => ?_
  · unfold checkJobId
    split
    · split
      · exact errorText_ok ()
      · exact errorText_error (hp.literal _)
    · exact errorText_error (hp.literal _)
  · unfold checkMode
    split
    · rename_i mode hmode
      split
      · exact errorText_ok ()
      · have htext := Json.of_strings_string (Json.strings_of_get hmessage hmode)
        exact errorText_error (hp.append (hp.literal _) (hp.cStr htext))
    · exact errorText_error (hp.literal _)
  · refine errorText_bind (checkTask_text hp message) fun _ _ => ?_
    refine errorText_bind (checkDownloads_text hp message) fun _ _ => ?_
    exact requireNonEmptyString_text hp _ _ _

end Validation

/-! ### What the code does with them -/

/-- Code that performs neutral effects only, on good responses. -/
abbrev Quiet (p : Bytes → Prop) {α : Type} (post : α → Prop) (code : Handler α) : Prop :=
  code.Within (goodResponse p) (fun e => e.isNeutral = true) post

theorem quiet_perform {e : Effect} {post : Response e → Prop} (he : e.isNeutral = true)
    (hr : ∀ r, goodResponse p e r → post r) : Quiet p post (perform e) :=
  Prog.within_perform he hr

theorem downloadAttempts_quiet (bucket objectKey localPath : Bytes) (attempts : Nat) :
    ∀ lastError, p lastError →
      Quiet p (ErrorText p) (downloadAttempts bucket objectKey localPath attempts lastError) := by
  induction attempts with
  | zero => exact fun lastError hlast => errorText_error hlast
  | succ attempts ih =>
    intro lastError _
    refine Prog.Within.bind (quiet_perform rfl fun r hr => hr) ?_
    rintro (error | ⟨⟩) hr
    · exact ih error (hr error rfl)
    · exact errorText_ok ()

theorem argumentStrings_quiet (values : List (Json Bytes)) :
    Quiet p (fun _ => True) (argumentStrings values) := by
  induction values with
  | nil => exact trivial
  | cons argument rest ih =>
    refine Prog.Within.bind (within_asString (by rfl) _) fun s _ => ?_
    exact Prog.Within.bind ih fun _ _ => trivial

theorem taskArguments_quiet (task : Object) : Quiet p (fun _ => True) (taskArguments task) := by
  unfold taskArguments
  split
  · exact trivial
  · exact Prog.Within.bind (within_atArray (by rfl) _ _) fun _ _ => argumentStrings_quiet _

theorem taskTimeoutSec_quiet (task : Object) :
    Quiet p (fun _ => True) (taskTimeoutSec task) := by
  unfold taskTimeoutSec
  split
  · exact trivial
  · exact Prog.Within.bind (within_atInt64 (by rfl) _ _) fun _ _ => trivial

theorem readStdoutTail_quiet (stdoutPath : Bytes) (hempty : p []) :
    Quiet p p (readStdoutTail stdoutPath) := by
  refine Prog.Within.bind (quiet_perform rfl fun r hr => hr) ?_
  rintro (_ | content) hr
  · exact hempty
  · exact hr content rfl

section Texts

variable [DecidablePred p] (hp : TextClass p)

include hp

theorem downloadEntries_quiet (inputsDir : Bytes) (entries : List (Json Bytes))
    (hentries : ∀ entry ∈ entries, entry.strings p = true) :
    Quiet p (ErrorText p) (downloadEntries inputsDir entries) := by
  induction entries with
  | nil => exact errorText_ok ()
  | cons entry rest ih =>
    refine Prog.Within.bind (within_asObject (by rfl) _) ?_
    rintro entryObject rfl
    have hentry := hentries _ (List.mem_cons_self ..)
    refine Prog.Within.bind (within_atString (by rfl) _ _) fun bucket _ => ?_
    refine Prog.Within.bind (within_atString (by rfl) _ _) fun objectKey hget => ?_
    have hkey : p objectKey := Json.of_strings_string (Json.strings_of_get hentry hget)
    refine Prog.Within.bind (downloadAttempts_quiet _ _ _ _ _ (hp.literal "")) ?_
    rintro (lastError | ⟨⟩) hlast
    · exact errorText_error (hp.bracketed _ _ (hp.cStr hkey) (hlast _ rfl))
    · exact ih fun e he => hentries e (List.mem_cons_of_mem _ he)

theorem downloadInputs_quiet (message : Object) (inputsDir : Bytes)
    (hmessage : (Json.object message).strings p = true) :
    Quiet p (ErrorText p) (downloadInputs message inputsDir) := by
  refine Prog.Within.bind (within_atArray (by rfl) _ _) fun entries hget => ?_
  have harray := Json.strings_of_get hmessage hget
  rw [Json.strings, Json.stringsList_iff] at harray
  exact downloadEntries_quiet hp inputsDir entries harray

/-- The result list of `upload_outputs` is made of flat objects. -/
theorem uploadEntries_quiet (worker : Worker) (outputPrefix outputsDir : Bytes)
    (throws : Bool) (entries : List DirectoryEntry)
    (hentries : ∀ entry ∈ entries, entry.isRegularFile = true → p entry.filename) :
    ∀ results, (∀ result ∈ results, result.FormedAt p 1) →
      Quiet p (fun r => ErrorText p r ∧
          ∀ uploaded, r = .ok uploaded → (Json.array uploaded).FormedAt p 2)
        (uploadEntries worker outputPrefix outputsDir throws entries results) := by
  induction entries with
  | nil =>
    intro results hresults
    unfold uploadEntries
    split
    · exact within_throwFilesystemError rfl
    refine ⟨errorText_ok _, fun uploaded h => ?_⟩
    cases h
    exact (Json.formedAt_array_iff 1 results).mpr hresults
  | cons entry rest ih =>
    intro results hresults
    have hrest := ih fun e he => hentries e (List.mem_cons_of_mem _ he)
    unfold uploadEntries
    split
    · rename_i hregular
      have hname := hentries entry (List.mem_cons_self ..) hregular
      refine Prog.Within.bind (quiet_perform rfl fun r hr => hr) ?_
      rintro (error | ⟨⟩) hr
      · exact ⟨errorText_error (hp.bracketed _ _ hname (hr _ rfl)), fun _ h => nomatch h⟩
      refine Prog.Within.bind (quiet_perform rfl fun r hr => hr) ?_
      rintro (error | url) hr
      · exact ⟨errorText_error (hp.bracketed _ _ hname (hr.1 _ rfl)), fun _ h => nomatch h⟩
      refine hrest _ fun result hresult => ?_
      rcases List.mem_append.mp hresult with hresult | hresult
      · exact hresults result hresult
      · rw [List.mem_singleton.mp hresult, Json.formedAt_object_iff]
        have hurl := hr.2 _ rfl
        simp [Object.keys, hname, hurl, hp.literal]
    · exact hrest results hresults

theorem uploadOutputs_quiet (worker : Worker) (outputPrefix outputsDir : Bytes) :
    Quiet p (fun r => ErrorText p r ∧
        ∀ uploaded, r = .ok uploaded → (Json.array uploaded).FormedAt p 2)
      (uploadOutputs worker outputPrefix outputsDir) := by
  refine Prog.Within.bind (quiet_perform rfl fun r hr => hr) ?_
  rintro (error | listing) hr
  · exact ⟨errorText_error (hp.append (hp.literal _) (hr.1 _ rfl)), fun _ h => nomatch h⟩
  · exact uploadEntries_quiet hp worker _ _ _ listing.entries (hr.2 _ rfl) [] (by simp)

end Texts

end TaskForge
