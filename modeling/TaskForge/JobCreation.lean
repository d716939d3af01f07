import TaskForge.InterfaceMessages

/-!
# Job creation

A call of an interface changes two stores that know nothing of each other: it stores the
`queued` document, then it sends the message.  The document comes first so that it cannot
overwrite what the worker writes once it has the message.  A call that fails before the
send has changed nothing, one that succeeds has added both; but nothing takes the document
back when the send fails.
-/

namespace TaskForge

open JsonText (CodePoint CodePoints)

/-! ### The traces of a call -/

/-- An effect of a call with its response. -/
abbrev CallExchange := (e : CallEffect) × CallResponse e

theorem presignInputs_trace_ok {job : JobId} {filenames : List CodePoints}
    {calls : List CallExchange} {urls : List (CodePoints × Bytes)} :
    (presignInputs job filenames).Trace calls (.ok urls) ↔
      urls.map Prod.fst = filenames ∧
      calls = urls.map fun upload => ⟨.presign (inputKey job upload.1), .ok upload.2⟩ := by
  induction filenames generalizing calls urls with
  | nil =>
    rw [presignInputs, Prog.trace_pure]
    constructor
    · rintro ⟨rfl, hurls⟩
      cases hurls
      exact ⟨rfl, rfl⟩
    · rintro ⟨hurls, rfl⟩
      rw [List.map_eq_nil_iff.mp hurls]
      exact ⟨rfl, rfl⟩
  | cons filename rest ih =>
    rw [presignInputs, presignPut, Prog.trace_perform_bind]
    constructor
    · rintro ⟨error | url, _, rfl, hrest⟩
      · cases (Prog.trace_pure.mp hrest).2
      obtain ⟨_, answer, _, rfl, hrest', hend⟩ := Prog.trace_bind.mp hrest
      rcases answer with failure | urls'
      · cases (Prog.trace_pure.mp hend).2
      obtain ⟨rfl, hurls⟩ := Prog.trace_pure.mp hend
      cases hurls
      obtain ⟨rfl, rfl⟩ := ih.mp hrest'
      rw [List.append_nil]
      exact ⟨rfl, rfl⟩
    · rintro ⟨hurls, rfl⟩
      obtain ⟨⟨_, url⟩, urls', rfl, rfl, hrest⟩ := List.map_eq_cons_iff.mp hurls
      refine ⟨.ok url, _, rfl, ?_⟩
      refine Prog.trace_bind.mpr ⟨_, .ok urls', [], (List.append_nil _).symm,
        ih.mpr ⟨hrest, rfl⟩, ?_⟩
      exact Prog.trace_pure.mpr ⟨rfl, rfl⟩

/-- A call that succeeds presigns, then stores, then sends. -/
theorem createJob_trace_ok {texts : JobTexts} {calls : List CallExchange}
    {answer : JobId × List (CodePoints × Bytes)} :
    (createJob texts).Trace calls (.ok answer) ↔
      answer.1 = texts.job ∧ answer.2.map Prod.fst = texts.filenames ∧
      calls = (answer.2.map fun upload =>
          (⟨.presign (inputKey texts.job upload.1), .ok upload.2⟩ : CallExchange)) ++
        [⟨.store texts.job.bytes texts.status, .ok ()⟩, ⟨.enqueue texts.message, .ok ()⟩] := by
  constructor
  · intro h
    obtain ⟨_, presigned, _, rfl, hpresigned, hstore⟩ := Prog.trace_bind.mp h
    rcases presigned with failure | urls
    · cases (Prog.trace_pure.mp hstore).2
    obtain ⟨hurls, rfl⟩ := presignInputs_trace_ok.mp hpresigned
    obtain ⟨error | ⟨⟩, _, rfl, hsend⟩ := Prog.trace_perform_bind.mp hstore
    · cases (Prog.trace_pure.mp hsend).2
    obtain ⟨error | ⟨⟩, _, rfl, hend⟩ := Prog.trace_perform_bind.mp hsend
    · cases (Prog.trace_pure.mp hend).2
    obtain ⟨rfl, hanswer⟩ := Prog.trace_pure.mp hend
    cases hanswer
    exact ⟨rfl, hurls, rfl⟩
  · obtain ⟨job, urls⟩ := answer
    rintro ⟨rfl, hurls, rfl⟩
    refine Prog.trace_bind.mpr ⟨_, .ok urls, _, rfl, presignInputs_trace_ok.mpr ⟨hurls, rfl⟩, ?_⟩
    refine Prog.trace_perform_bind.mpr ⟨.ok (), _, rfl, ?_⟩
    refine Prog.trace_perform_bind.mpr ⟨.ok (), _, rfl, ?_⟩
    exact Prog.trace_pure.mpr ⟨rfl, rfl⟩

/-- A call can succeed. -/
theorem exists_createJob_ok (texts : JobTexts) :
    ∃ calls answer, (createJob texts).Trace calls (.ok answer) := by
  have hnames : (texts.filenames.map fun filename => (filename, ([] : Bytes))).map Prod.fst =
      texts.filenames := by
    rw [List.map_map]
    exact List.map_id _
  exact ⟨_, (texts.job, _), createJob_trace_ok.mpr ⟨rfl, hnames, rfl⟩⟩

/-- Presigning is all that happens before the document is stored. -/
theorem presignInputs_footprint (job : JobId) (filenames : List CodePoints) :
    (presignInputs job filenames).Within (fun _ _ => True) (fun e => ∃ key, e = .presign key)
      fun _ => True := by
  induction filenames with
  | nil => trivial
  | cons filename rest ih =>
    refine ⟨⟨_, rfl⟩, ?_⟩
    rintro (error | url) -
    · trivial
    · show (presignInputs job rest >>= _).Within _ _ _
      refine Prog.Within.bind ih ?_
      rintro (failure | urls) - <;> trivial

/-! ### The two stores -/

/-- What a call adds to a store. -/
inductive Addition where
  | document (key text : Bytes)
  | message (body : Bytes)
deriving DecidableEq

/-- The addition an exchange makes; a call that fails makes none. -/
def CallExchange.addition : CallExchange → Option Addition
  | ⟨.store key document, .ok ()⟩ => some (.document key document)
  | ⟨.enqueue body, .ok ()⟩ => some (.message body)
  | _ => none

/-- The additions of a call, in order. -/
def additions (calls : List CallExchange) : List Addition :=
  calls.filterMap CallExchange.addition

/-- The status store and the queue. -/
structure Stores where
  documents : Bytes → Option Bytes
  queue : List Bytes

def Stores.add (stores : Stores) : Addition → Stores
  | .document key text =>
    { stores with documents := Function.update stores.documents key (some text) }
  | .message body => { stores with queue := stores.queue ++ [body] }

/-- The stores after the call. -/
def Stores.after (stores : Stores) (calls : List CallExchange) : Stores :=
  (additions calls).foldl Stores.add stores

/-- The `queued` document of a job, in a style that spells its strings. -/
def QueuedDocument (job : JobId) (text : Bytes) : Prop :=
  ∃ style now taskName, JsonText.Style.Spells style JsonText.encodePoints ∧
    text = JsonText.write style (statusTree job now taskName)

/-- A message for a job, in such a style. -/
def MessageFor (job : JobId) (text : Bytes) : Prop :=
  ∃ style now bucket task filenames, JsonText.Style.Spells style JsonText.encodePoints ∧
    text = JsonText.write style (messageTree job now bucket task filenames)

/-- **All or nothing**: an error leaves the stores as they were, and a success adds a document
    of the job and then a message for it. -/
def AllOrNothing {α : Type} (job : JobId) (stores : Stores) (calls : List CallExchange) :
    Except CallFailure α → Prop
  | .error _ => stores.after calls = stores
  | .ok _ => ∃ document message, QueuedDocument job document ∧ MessageFor job message ∧
    additions calls = [.document job.bytes document, .message message]

theorem Request.texts_job (bucket : List Char) (job : JobId) (now : UtcTime) (request : Request) :
    (request.texts bucket job now).job = job := by
  cases request <;> rfl

theorem Request.texts_status (bucket : List Char) (job : JobId) (now : UtcTime)
    (request : Request) : QueuedDocument job (request.texts bucket job now).status := by
  cases request with
  | go => exact ⟨_, now, _, JsonText.goEscaping.spells [] _, rfl⟩
  | python => exact ⟨_, now, _, JsonText.pythonEscaping.spells [32] _, rfl⟩
  | js => exact ⟨_, now, _, JsonText.jsEscaping.spells [] _, rfl⟩

theorem Request.texts_message (bucket : List Char) (job : JobId) (now : UtcTime)
    (request : Request) : MessageFor job (request.texts bucket job now).message := by
  cases request with
  | go => exact ⟨_, now, _, _, _, JsonText.goEscaping.spells [] _, rfl⟩
  | python => exact ⟨_, now, _, _, _, JsonText.pythonEscaping.spells [32] _, rfl⟩
  | js => exact ⟨_, now, _, _, _, JsonText.jsEscaping.spells [] _, rfl⟩

theorem additions_append (first second : List CallExchange) :
    additions (first ++ second) = additions first ++ additions second :=
  List.filterMap_append

theorem additions_presigned {calls : List CallExchange}
    (h : ∀ exchange ∈ calls, ∃ key, exchange.1 = .presign key) : additions calls = [] := by
  refine List.filterMap_eq_nil_iff.mpr ?_
  rintro ⟨e, r⟩ hmem
  obtain ⟨key, rfl⟩ := h _ hmem
  rfl

/-- A call fails with nothing added, or at the send with the document added. -/
theorem createJob_trace_error {texts : JobTexts} {calls : List CallExchange}
    {failure : CallFailure} (h : (createJob texts).Trace calls (.error failure)) :
    (additions calls = [] ∧
      ∀ body error, (⟨.enqueue body, .error error⟩ : CallExchange) ∉ calls) ∨
    (additions calls = [.document texts.job.bytes texts.status] ∧
      ∃ error, (⟨.enqueue texts.message, .error error⟩ : CallExchange) ∈ calls) := by
  obtain ⟨first, presigned, second, rfl, hpresigned, hrest⟩ := Prog.trace_bind.mp h
  have hfirst := ((presignInputs_footprint _ _).trace hpresigned fun _ _ => trivial).1
  have hadded : additions (first ++ second) = additions second := by
    rw [additions_append, additions_presigned hfirst, List.nil_append]
  have hunsent : ∀ body error, (⟨.enqueue body, .error error⟩ : CallExchange) ∉ first := by
    intro body error hmem
    obtain ⟨key, heq⟩ := hfirst _ hmem
    cases heq
  rw [hadded]
  rcases presigned with failed | urls
  · obtain ⟨rfl, -⟩ := Prog.trace_pure.mp hrest
    rw [List.append_nil]
    exact Or.inl ⟨rfl, hunsent⟩
  obtain ⟨stored | ⟨⟩, _, rfl, hsend⟩ := Prog.trace_perform_bind.mp hrest
  · obtain ⟨rfl, -⟩ := Prog.trace_pure.mp hsend
    refine Or.inl ⟨rfl, fun body error hmem => ?_⟩
    rcases List.mem_append.mp hmem with hmem | hmem
    · exact hunsent body error hmem
    · simp at hmem
  obtain ⟨error | ⟨⟩, _, rfl, hend⟩ := Prog.trace_perform_bind.mp hsend
  · obtain ⟨rfl, -⟩ := Prog.trace_pure.mp hend
    exact Or.inr ⟨rfl, error, by simp⟩
  · cases (Prog.trace_pure.mp hend).2

/-- **Job creation is all-or-nothing** if and only if the send does not fail. -/
theorem job_creation_atomic_iff (bucket : List Char) (job : JobId) (now : UtcTime)
    (request : Request) {calls : List CallExchange}
    {result : Except CallFailure (JobId × List (CodePoints × Bytes))}
    (htrace : (createJob (request.texts bucket job now)).Trace calls result) (stores : Stores)
    (hnew : stores.documents job.bytes = none) :
    AllOrNothing job stores calls result ↔
      ∀ body error, (⟨.enqueue body, .error error⟩ : CallExchange) ∉ calls := by
  have hjob := request.texts_job bucket job now
  rcases result with failure | answer
  · rcases createJob_trace_error htrace with ⟨hadded, hunsent⟩ | ⟨hadded, error, hmem⟩
    · refine iff_of_true ?_ hunsent
      show stores.after calls = stores
      rw [Stores.after, hadded]
      rfl
    · refine iff_of_false ?_ fun h => h _ _ hmem
      intro hsame
      change stores.after calls = stores at hsame
      rw [Stores.after, hadded, hjob] at hsame
      have hdocument := congrArg (fun s => s.documents job.bytes) hsame
      simp [Stores.add, hnew] at hdocument
  · obtain ⟨-, -, rfl⟩ := createJob_trace_ok.mp htrace
    refine iff_of_true ⟨_, _, request.texts_status bucket job now,
      request.texts_message bucket job now, ?_⟩ ?_
    · rw [additions_append, additions_presigned (List.forall_mem_map.mpr fun _ _ => ⟨_, rfl⟩),
        List.nil_append, hjob]
      rfl
    · simp

def sampleUuidJob : JobId := JobId.ofUuid sampleUuid isUuid_sampleUuid

def emptyStores : Stores := ⟨fun _ => none, []⟩

section Bare

variable (request : Request)

/-- The texts of a request, created in empty stores. -/
def sampleTexts : JobTexts := request.texts "jobs".toList sampleUuidJob sampleTime

/-- The job can be created, and then its document and its message are there. -/
def CanBeCreated : Prop :=
  ∃ calls answer, (createJob (sampleTexts request)).Trace calls (.ok answer) ∧
    AllOrNothing (α := JobId × List (CodePoints × Bytes)) sampleUuidJob emptyStores calls
      (.ok answer)

/-- The queue is down: the client is told of an error, and the document stays. -/
def LeavesDocument : Prop :=
  ∃ calls, (createJob (sampleTexts request)).Trace calls (.error (.enqueue "sqs down")) ∧
    (∃ document, (emptyStores.after calls).documents sampleUuid = some document ∧
      QueuedDocument sampleUuidJob document) ∧
    (emptyStores.after calls).queue = []

variable {request}

theorem leavesDocument_of_no_inputs (h : (sampleTexts request).filenames = []) :
    LeavesDocument request := by
  have hjob : (sampleTexts request).job = sampleUuidJob := request.texts_job ..
  refine ⟨[⟨.store (sampleTexts request).job.bytes (sampleTexts request).status, .ok ()⟩,
    ⟨.enqueue (sampleTexts request).message, .error "sqs down"⟩], ?_,
    ⟨(sampleTexts request).status, ?_, ?_⟩, rfl⟩
  · rw [createJob, h]
    refine Prog.trace_perform_bind.mpr ⟨.ok (), _, rfl, ?_⟩
    exact Prog.trace_perform_bind.mpr ⟨.error "sqs down", [], rfl, .done _⟩
  · rw [hjob]
    exact Function.update_self sampleUuid (some (sampleTexts request).status) emptyStores.documents
  · exact request.texts_status ..

end Bare

/-! A request for `echo` without inputs, to each interface. -/

def bareGo : Request := .go ⟨"echo".toList, none, [], 0⟩

def barePython : Request := .python ⟨constant "echo", [], [], none⟩

def bareJs : Request := .js ⟨constant "echo", .absent, .absent, .absent⟩

theorem bare_requests_created :
    CanBeCreated bareGo ∧ CanBeCreated barePython ∧ CanBeCreated bareJs := by
  have hcreated : ∀ request, CanBeCreated request := by
    intro request
    obtain ⟨calls, answer, htrace⟩ := exists_createJob_ok (sampleTexts request)
    refine ⟨calls, answer, htrace, ?_⟩
    apply (job_creation_atomic_iff _ sampleUuidJob _ request htrace emptyStores rfl).mpr
    obtain ⟨-, -, rfl⟩ := createJob_trace_ok.mp htrace
    simp
  exact ⟨hcreated _, hcreated _, hcreated _⟩

theorem queued_document_left_behind :
    LeavesDocument bareGo ∧ LeavesDocument barePython ∧ LeavesDocument bareJs :=
  ⟨leavesDocument_of_no_inputs rfl, leavesDocument_of_no_inputs rfl,
    leavesDocument_of_no_inputs rfl⟩

end TaskForge
