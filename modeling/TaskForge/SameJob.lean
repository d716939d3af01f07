import TaskForge.InputFiles

/-!
# One request, three interfaces

The same body goes through three JSON readers before it becomes a request: they differ in
what they make of members that are left out or null, and of an unpaired surrogate in a
string.  Where all three accept it and its strings have no unpaired surrogate, they hand
the same strings to the same trees, and everything after that is the same.
-/

namespace TaskForge

open JsonText (CodePoint CodePoints codePoints encodePoints denote denoteElements isHigh isLow
  pairChar)

/-! ### String literals -/

/-- The characters and escapes of a literal as Python and JavaScript read them: the halves
    of a surrogate pair are one character. -/
def joinPairs : CodePoints → CodePoints
  | [] => []
  | c :: rest =>
    if isHigh c.value then
      match rest with
      | d :: rest' =>
        if isLow d.value then CodePoint.ofChar (pairChar c.value d.value) :: joinPairs rest'
        else c :: joinPairs (d :: rest')
      | [] => [c]
    else c :: joinPairs rest

/-- `unicode.ReplacementChar` -/
def replacementChar : Char := Char.ofNat 0xFFFD

/-- The same as Go reads them: an unpaired half is replaced. -/
def runes : CodePoints → List Char
  | [] => []
  | c :: rest =>
    if isHigh c.value then
      match rest with
      | d :: rest' =>
        if isLow d.value then pairChar c.value d.value :: runes rest'
        else replacementChar :: runes (d :: rest')
      | [] => [replacementChar]
    else if isLow c.value then replacementChar :: runes rest
    else Char.ofNat c.value :: runes rest

theorem joinPairs_pair {c d : CodePoint} (hhigh : isHigh c.value = true)
    (hlow : isLow d.value = true) (rest : CodePoints) :
    joinPairs (c :: d :: rest) = CodePoint.ofChar (pairChar c.value d.value) :: joinPairs rest := by
  rw [joinPairs, if_pos hhigh]
  exact if_pos hlow

theorem joinPairs_high {c d : CodePoint} (hhigh : isHigh c.value = true)
    (hlow : isLow d.value ≠ true) (rest : CodePoints) :
    joinPairs (c :: d :: rest) = c :: joinPairs (d :: rest) := by
  rw [joinPairs, if_pos hhigh]
  exact if_neg hlow

theorem joinPairs_other {c : CodePoint} (hhigh : isHigh c.value ≠ true) (rest : CodePoints) :
    joinPairs (c :: rest) = c :: joinPairs rest := by
  rw [joinPairs.eq_def]
  exact if_neg hhigh

/-- A string that does not begin with the second half of a pair still does not. -/
theorem joinPairs_head {d : CodePoint} (hlow : isLow d.value ≠ true) (rest : CodePoints) :
    ∃ e rest', joinPairs (d :: rest) = e :: rest' ∧ isLow e.value ≠ true := by
  by_cases hhigh : isHigh d.value = true
  · cases rest with
    | nil => exact ⟨d, [], by rw [joinPairs, if_pos hhigh], hlow⟩
    | cons e rest =>
      by_cases he : isLow e.value = true
      · have hscalar := JsonText.isScalar_ofChar (pairChar d.value e.value)
        rw [JsonText.isScalar, Bool.and_eq_true, Bool.not_eq_true', Bool.not_eq_true'] at hscalar
        exact ⟨_, _, joinPairs_pair hhigh he rest, ne_true_of_eq_false hscalar.2⟩
      · exact ⟨d, _, joinPairs_high hhigh he rest, hlow⟩
  · exact ⟨d, _, joinPairs_other hhigh rest, hlow⟩

/-- An unpaired surrogate stays one. -/
theorem encodePoints_joinPairs_none {s : CodePoints} (h : encodePoints s = none) :
    encodePoints (joinPairs s) = none := by
  revert h
  fun_induction encodePoints s with
  | case1 => simp
  | case2 c hhigh d rest hlow ih =>
    intro h
    rw [joinPairs_pair hhigh hlow, JsonText.encodePoints_scalar (JsonText.isScalar_ofChar _),
      ih (Option.map_eq_none_iff.mp h)]
    rfl
  | case3 c hhigh d rest hlow =>
    intro _
    obtain ⟨e, rest', hjoin, he⟩ := joinPairs_head hlow rest
    rw [joinPairs_high hhigh hlow, hjoin, encodePoints, if_pos hhigh]
    exact if_neg he
  | case4 c hhigh =>
    intro _
    rw [joinPairs, if_pos hhigh, encodePoints, if_pos hhigh]
  | case5 c rest hhigh hlow =>
    intro _
    rw [joinPairs_other hhigh, encodePoints.eq_def]
    simp [hhigh, hlow]
  | case6 c rest hhigh hlow ih =>
    intro h
    rw [joinPairs_other hhigh, JsonText.encodePoints_scalar (by simp [JsonText.isScalar, hhigh, hlow]),
      ih (Option.map_eq_none_iff.mp h)]
    rfl

/-- Without unpaired surrogates all three read the same string. -/
theorem codePoints_runes {s : CodePoints} (h : (encodePoints s).isSome = true) :
    codePoints (runes s) = joinPairs s := by
  revert h
  fun_induction encodePoints s with
  | case1 => exact fun _ => rfl
  | case2 c hhigh d rest hlow ih =>
    intro h
    rw [Option.isSome_map] at h
    have hrunes : runes (c :: d :: rest) = pairChar c.value d.value :: runes rest := by
      rw [runes, if_pos hhigh]
      exact if_pos hlow
    rw [joinPairs_pair hhigh hlow, hrunes, ← ih h]
    rfl
  | case3 | case4 | case5 => simp
  | case6 c rest hhigh hlow ih =>
    intro h
    rw [Option.isSome_map] at h
    have hscalar : JsonText.isScalar c.value = true := by simp [JsonText.isScalar, hhigh, hlow]
    have hrunes : runes (c :: rest) = Char.ofNat c.value :: runes rest := by
      rw [runes.eq_def]
      exact (if_neg hhigh).trans (if_neg hlow)
    have hchar : CodePoint.ofChar (Char.ofNat c.value) = c :=
      CodePoint.ext (JsonText.val_ofNat hscalar c.lt)
    rw [joinPairs_other hhigh, hrunes, ← ih h, codePoints, List.map_cons, hchar]
    rfl

theorem encodable_map_joinPairs {strings : List CodePoints} :
    Encodable (strings.map joinPairs) ↔ Encodable strings := by
  unfold Encodable
  rw [List.forall_mem_map]
  refine forall₂_congr fun s _ => ⟨fun h => ?_, fun h => ?_⟩
  · by_contra hnone
    rw [encodePoints_joinPairs_none (Option.not_isSome_iff_eq_none.mp hnone)] at h
    cases h
  · rw [← codePoints_runes h, JsonText.encodePoints_codePoints]
    rfl

theorem map_codePoints_runes {strings : List CodePoints} (h : Encodable strings) :
    (strings.map runes).map codePoints = strings.map joinPairs := by
  rw [List.map_map]
  exact List.map_congr_left fun s hs => codePoints_runes (h s hs)

/-! ### Bodies -/

/-- The body of `POST /api/v1/jobs`: strings as their literals spell them, and members that
    are left out, null, or of their kind. -/
structure Body where
  taskName : CodePoints
  arguments : Member (List CodePoints)
  inputFiles : Member (List CodePoints)
  timeoutSec : Member Int

/-- `ShouldBindJSON` leaves the zero value for a member that is null, and refuses an integer
    that is none of 64 bits. -/
def Body.go (body : Body) : Option GoRequest :=
  let arguments := match body.arguments with
    | .value arguments => some (arguments.map runes)
    | _ => none
  let request := fun timeoutSec =>
    ⟨runes body.taskName, arguments, (body.inputFiles.getD []).map runes, timeoutSec⟩
  match body.timeoutSec with
  | .value timeout =>
    if Int64.minValue.toInt ≤ timeout ∧ timeout ≤ Int64.maxValue.toInt then
      some (request (Int64.ofInt timeout))
    else none
  | _ => some (request 0)

/-- A list that may be left out but not null: `Field(default_factory=list)`. -/
def defaultList : Member (List CodePoints) → Option (List CodePoints)
  | .absent => some []
  | .null => none
  | .value strings => some strings

/-- `CreateJobRequest` -/
def Body.python (body : Body) : Option PythonRequest := do
  let arguments ← defaultList body.arguments
  let inputFiles ← defaultList body.inputFiles
  let timeoutSec := match body.timeoutSec with
    | .value timeout => some timeout
    | _ => none
  pure ⟨joinPairs body.taskName, arguments.map joinPairs, inputFiles.map joinPairs, timeoutSec⟩

/-- `CreateJobDto` -/
def Body.js (body : Body) : JsRequest where
  taskName := joinPairs body.taskName
  arguments := body.arguments.map (List.map joinPairs)
  inputFiles := body.inputFiles.map (List.map joinPairs)
  timeoutSec := body.timeoutSec

/-- The strings of a body. -/
def Body.strings (body : Body) : List CodePoints :=
  body.taskName :: body.arguments.getD [] ++ body.inputFiles.getD []

/-- All three accept the body, and its timeout is left out or an integer. -/
structure Body.AcceptedByAll (check : LengthCheck) (body : Body) (go : GoRequest)
    (python : PythonRequest) : Prop where
  go_reads : body.go = some go
  go_accepts : go.accepted = true
  python_reads : body.python = some python
  python_accepts : python.accepted = true
  js_accepts : body.js.accepted check = true
  timeout : body.timeoutSec ≠ .null

/-! ### The same calls -/

/-- Two texts of one JSON value. -/
def SameValue (text text' : Bytes) : Prop :=
  ∃ value, JsonText.parse text = some value ∧ JsonText.parse text' = some value

/-- The same call with the same answer; documents and messages are compared as values. -/
inductive SameCall : CallExchange → CallExchange → Prop
  | presign (key : CodePoints) (answer : Except Bytes Bytes) :
      SameCall ⟨.presign key, answer⟩ ⟨.presign key, answer⟩
  | store (key : Bytes) {document document' : Bytes} (answer : Except Bytes Unit) :
      SameValue document document' →
        SameCall ⟨.store key document, answer⟩ ⟨.store key document', answer⟩
  | enqueue {body body' : Bytes} (answer : Except Bytes Unit) :
      SameValue body body' → SameCall ⟨.enqueue body, answer⟩ ⟨.enqueue body', answer⟩

/-- Whatever the answers, the second makes the same calls as the first and returns the same
    upload URLs, or the same failure. -/
def SameJob (texts texts' : JobTexts) : Prop :=
  ∀ calls result, (createJob texts).Trace calls result →
    ∃ calls', (createJob texts').Trace calls' result ∧ List.Forall₂ SameCall calls calls'

theorem sameJob_of_sameValue {texts texts' : JobTexts} (hjob : texts.job = texts'.job)
    (hfilenames : texts.filenames = texts'.filenames)
    (hstatus : SameValue texts.status texts'.status)
    (hmessage : SameValue texts.message texts'.message) : SameJob texts texts' := by
  obtain ⟨job, filenames, status, message⟩ := texts
  obtain ⟨_, _, status', message'⟩ := texts'
  cases hjob
  cases hfilenames
  intro calls result h
  obtain ⟨first, presigned, second, rfl, hpresigned, hstore⟩ := Prog.trace_bind.mp h
  have hfirst : List.Forall₂ SameCall first first := by
    refine List.forall₂_same.mpr ?_
    rintro ⟨e, answer⟩ hcall
    obtain ⟨key, rfl⟩ := ((presignInputs_footprint job filenames).trace hpresigned
      fun _ _ => trivial).1 _ hcall
    exact .presign key answer
  -- after the presigned URLs, which are the same calls, at most two calls follow
  suffices hsecond : ∃ second', List.Forall₂ SameCall second second' ∧
      (createJob ⟨job, filenames, status', message'⟩).Trace (first ++ second') result by
    obtain ⟨second', hsame, htrace⟩ := hsecond
    exact ⟨first ++ second', htrace, List.rel_append hfirst hsame⟩
  rcases presigned with failure | urls
  · obtain ⟨rfl, rfl⟩ := Prog.trace_pure.mp hstore
    refine ⟨[], .nil, Prog.trace_bind.mpr ⟨first, _, [], rfl, hpresigned, ?_⟩⟩
    exact Prog.trace_pure.mpr ⟨rfl, rfl⟩
  obtain ⟨stored, rest, rfl, hsend⟩ := Prog.trace_perform_bind.mp hstore
  rcases stored with error | ⟨⟩
  · obtain ⟨rfl, rfl⟩ := Prog.trace_pure.mp hsend
    refine ⟨_, .cons (.store _ _ hstatus) .nil,
      Prog.trace_bind.mpr ⟨first, _, _, rfl, hpresigned, ?_⟩⟩
    exact Prog.trace_perform_bind.mpr ⟨_, _, rfl, Prog.trace_pure.mpr ⟨rfl, rfl⟩⟩
  obtain ⟨sent, rest, rfl, hend⟩ := Prog.trace_perform_bind.mp hsend
  refine ⟨[_, ⟨.enqueue message', sent⟩], .cons (.store _ _ hstatus) ?_,
    Prog.trace_bind.mpr ⟨first, _, _, rfl, hpresigned, ?_⟩⟩
  · rcases sent with error | ⟨⟩ <;> obtain ⟨rfl, -⟩ := Prog.trace_pure.mp hend <;>
      exact .cons (.enqueue _ hmessage) .nil
  · refine Prog.trace_perform_bind.mpr ⟨.ok (), _, rfl, ?_⟩
    refine Prog.trace_perform_bind.mpr ⟨sent, [], rfl, ?_⟩
    rcases sent with error | ⟨⟩ <;> obtain ⟨rfl, rfl⟩ := Prog.trace_pure.mp hend <;>
      exact Prog.trace_pure.mpr ⟨rfl, rfl⟩

/-- The last call of a job is its message. -/
theorem sameValue_of_sameJob {texts texts' : JobTexts} (h : SameJob texts texts') :
    SameValue texts.message texts'.message := by
  obtain ⟨calls, answer, hcreated⟩ := exists_createJob_ok texts
  obtain ⟨calls', hcreated', hsame⟩ := h _ _ hcreated
  obtain ⟨-, -, rfl⟩ := createJob_trace_ok.mp hcreated
  obtain ⟨-, -, rfl⟩ := createJob_trace_ok.mp hcreated'
  rw [← List.forall₂_reverse_iff, List.reverse_append, List.reverse_append] at hsame
  obtain ⟨hlast, -⟩ := List.forall₂_cons.mp hsame
  cases hlast with
  | enqueue _ hvalue => exact hvalue

/-! ### The same values -/

section Values

variable {job : JobId} {now : UtcTime} {bucket : List Char} {taskName : CodePoints}
  {arguments filenames : List CodePoints} {timeoutSec : Member Int64}

theorem denote_message_isSome :
    (denote encodePoints (messageTree job now (codePoints bucket)
      (taskTree taskName arguments timeoutSec) filenames) Json.maxDepth).isSome = true ↔
      Encodable (taskName :: arguments ++ filenames) := by
  have hsplit : Encodable (taskName :: arguments ++ filenames) ↔
      (encodePoints taskName).isSome = true ∧ (arguments.mapM encodePoints).isSome = true ∧
        (filenames.mapM encodePoints).isSome = true := by
    rw [← encodable_iff_mapM, ← encodable_iff_mapM]
    simp [Encodable, or_imp, forall_and]
  have hdenote := denote_messageTree job now (codePoints bucket)
    (taskTree taskName arguments timeoutSec) filenames 30
  rw [denote_taskTree taskName arguments timeoutSec 29,
    denoteElements_downloads (JsonText.encodePoints_codePoints bucket)] at hdenote
  rw [hsplit, show Json.maxDepth = 30 + 2 from rfl, hdenote]
  cases encodePoints taskName with
  | none => simp
  | some name =>
    cases arguments.mapM encodePoints with
    | none => simp
    | some args => cases filenames.mapM encodePoints <;> simp

/-- The style does not matter for the value. -/
theorem sameJob_jobTexts {style style' : JsonText.Style CodePoints}
    (hspells : style.Spells encodePoints) (hspells' : style'.Spells encodePoints)
    (hencodable : Encodable (taskName :: arguments ++ filenames)) :
    SameJob (jobTexts style (codePoints bucket) job now taskName arguments filenames timeoutSec)
      (jobTexts style' (codePoints bucket) job now taskName arguments filenames timeoutSec) := by
  have hvalue : ∀ tree, (denote encodePoints tree Json.maxDepth).isSome = true →
      SameValue (JsonText.write style tree) (JsonText.write style' tree) := by
    intro tree htree
    obtain ⟨value, hvalue⟩ := Option.isSome_iff_exists.mp htree
    exact ⟨value, (JsonText.parse_write hspells tree).trans hvalue,
      (JsonText.parse_write hspells' tree).trans hvalue⟩
  refine sameJob_of_sameValue rfl rfl (hvalue _ ?_) (hvalue _ ?_)
  · rw [show Json.maxDepth = 31 + 1 from rfl, denote_statusTree, Option.isSome_map]
    exact hencodable taskName (List.mem_cons_self ..)
  · exact denote_message_isSome.mpr hencodable

theorem encodable_of_sameValue {style : JsonText.Style CodePoints}
    (hspells : style.Spells encodePoints) {text : Bytes}
    (h : SameValue text (jobTexts style (codePoints bucket) job now taskName arguments filenames
      timeoutSec).message) : Encodable (taskName :: arguments ++ filenames) := by
  obtain ⟨value, -, hvalue⟩ := h
  rw [jobTexts, JsonText.parse_write hspells] at hvalue
  exact denote_message_isSome.mp (Option.isSome_iff_exists.mpr ⟨value, hvalue⟩)

end Values

/-! ### The same texts -/

/-- The texts of a body whose strings have no unpaired surrogate, up to the style. -/
def Body.texts (style : JsonText.Style CodePoints) (bucket : List Char) (job : JobId)
    (now : UtcTime) (body : Body) : JobTexts :=
  jobTexts style (codePoints bucket) job now (joinPairs body.taskName)
    ((body.arguments.getD []).map joinPairs) ((body.inputFiles.getD []).map joinPairs)
    (body.timeoutSec.map Int64.ofInt)

theorem Member.getD_map_joinPairs (strings : Member (List CodePoints)) :
    (strings.map (List.map joinPairs)).getD [] = (strings.getD []).map joinPairs := by
  cases strings <;> rfl

theorem timeout_ne_zero {n : Int} (hlow : 1 ≤ n) (hhigh : n ≤ 3600) : Int64.ofInt n ≠ 0 := by
  intro hzero
  have hn : (Int64.ofInt n).toInt = n := by
    rw [Int64.toInt_ofInt_of_le] <;> omega
  rw [hzero] at hn
  simp at hn
  omega

theorem getD_of_defaultList {strings : Member (List CodePoints)} {list : List CodePoints}
    (h : defaultList strings = some list) : strings.getD [] = list := by
  cases strings <;> cases h <;> rfl

section Texts

variable {check : LengthCheck} {body : Body} {go : GoRequest} {python : PythonRequest}
  (h : body.AcceptedByAll check go python) (bucket : List Char) (job : JobId) (now : UtcTime)

theorem Body.js_texts (body : Body) :
    body.js.texts (codePoints bucket) job now = body.texts JsonText.jsStyle bucket job now := by
  rw [JsRequest.texts, Body.texts, Body.js, Member.getD_map_joinPairs, Member.getD_map_joinPairs]

include h

theorem Body.AcceptedByAll.python_texts :
    python.texts (codePoints bucket) job now = body.texts JsonText.pythonStyle bucket job now := by
  obtain ⟨arguments, harguments, hreads⟩ := Option.bind_eq_some_iff.mp h.python_reads
  obtain ⟨inputFiles, hinputFiles, hrequest⟩ := Option.bind_eq_some_iff.mp hreads
  cases hrequest
  rw [PythonRequest.texts, Body.texts, getD_of_defaultList harguments,
    getD_of_defaultList hinputFiles]
  cases htimeout : body.timeoutSec with
  | absent => rfl
  | null => exact absurd htimeout h.timeout
  | value timeout => rfl

/-- Zero stands for a timeout that is left out, and cannot be given. -/
theorem Body.AcceptedByAll.go_request :
    go.taskName = runes body.taskName ∧
    go.arguments.getD [] = (body.arguments.getD []).map runes ∧
    go.inputFiles = (body.inputFiles.getD []).map runes ∧
    (if go.timeoutSec = 0 then .absent else .value go.timeoutSec) =
      body.timeoutSec.map Int64.ofInt := by
  have hreads := h.go_reads
  have hrange := h.js_accepts
  simp only [JsRequest.accepted, Bool.and_eq_true] at hrange
  unfold Body.go at hreads
  have harguments : (match body.arguments with
      | .value arguments => some (arguments.map runes)
      | _ => none).getD [] = (body.arguments.getD []).map runes := by
    cases body.arguments <;> rfl
  cases htimeout : body.timeoutSec with
  | absent =>
    rw [htimeout] at hreads
    cases hreads
    exact ⟨rfl, harguments, rfl, rfl⟩
  | null => exact absurd htimeout h.timeout
  | value timeout =>
    have hbounds := hrange.2
    change body.timeoutSec.isOptional _ = true at hbounds
    rw [htimeout] at hreads hbounds
    simp only [Member.isOptional, Bool.and_eq_true, decide_eq_true_eq] at hbounds
    dsimp only at hreads
    split at hreads
    · cases hreads
      refine ⟨rfl, harguments, rfl, ?_⟩
      rw [if_neg (timeout_ne_zero hbounds.1 hbounds.2)]
      rfl
    · cases hreads

theorem Body.AcceptedByAll.go_texts (hencodable : Encodable body.strings) :
    go.texts bucket job now = body.texts JsonText.goStyle bucket job now := by
  have hargs : Encodable (body.arguments.getD []) := fun s hs =>
    hencodable s (List.mem_append_left _ (List.mem_cons_of_mem _ hs))
  have hfiles : Encodable (body.inputFiles.getD []) := fun s hs =>
    hencodable s (List.mem_append_right _ hs)
  obtain ⟨hname, harguments, hinputFiles, htimeout⟩ := h.go_request
  rw [GoRequest.texts, Body.texts, hname, harguments, hinputFiles, htimeout,
    codePoints_runes (hencodable _ (List.mem_cons_self ..)), map_codePoints_runes hargs,
    map_codePoints_runes hfiles]

end Texts

theorem Body.encodable_strings {body : Body} :
    Encodable (joinPairs body.taskName :: (body.arguments.getD []).map joinPairs ++
      (body.inputFiles.getD []).map joinPairs) ↔ Encodable body.strings := by
  rw [← List.map_cons, ← List.map_append, encodable_map_joinPairs, Body.strings]

/-- **The three interfaces produce the same job** if and only if no string of the body has
    an unpaired surrogate: Go replaces it, Python and JavaScript pass it on. -/
theorem same_job_iff (check : LengthCheck) (uuid : Bytes) (huuid : isUuid uuid = true)
    (now : UtcTime) (bucket : List Char) {body : Body} {go : GoRequest} {python : PythonRequest}
    (h : body.AcceptedByAll check go python) :
    let job := JobId.ofUuid uuid huuid
    let interfaces := [go.texts bucket job now, python.texts (codePoints bucket) job now,
      body.js.texts (codePoints bucket) job now]
    (∀ texts ∈ interfaces, ∀ texts' ∈ interfaces, SameJob texts texts') ↔
      Encodable body.strings := by
  intro job interfaces
  constructor
  · intro hsame
    have hmessage := sameValue_of_sameJob (hsame _ (List.mem_cons_self ..) _
      (List.mem_cons_of_mem _ (List.mem_cons_self ..)))
    rw [h.python_texts] at hmessage
    exact Body.encodable_strings.mp
      (encodable_of_sameValue (JsonText.pythonEscaping.spells [32] _) hmessage)
  · intro hencodable
    have hstyle : ∀ texts ∈ interfaces, ∃ style : JsonText.Style CodePoints,
        style.Spells encodePoints ∧ texts = body.texts style bucket job now := by
      simp only [interfaces, List.forall_mem_cons]
      exact ⟨⟨_, JsonText.goEscaping.spells [] _, h.go_texts bucket job now hencodable⟩,
        ⟨_, JsonText.pythonEscaping.spells [32] _, h.python_texts bucket job now⟩,
        ⟨_, JsonText.jsEscaping.spells [] _, Body.js_texts bucket job now body⟩,
        List.forall_mem_nil _⟩
    intro texts htexts texts' htexts'
    obtain ⟨style, hspells, rfl⟩ := hstyle texts htexts
    obtain ⟨style', hspells', rfl⟩ := hstyle texts' htexts'
    exact sameJob_jobTexts hspells hspells' (Body.encodable_strings.mpr hencodable)

/-- `{"task_name": "echo", "arguments": […], "timeout_sec": 60}` -/
def echoBody (arguments : List CodePoints) : Body :=
  ⟨constant "echo", .value arguments, .absent, .value 60⟩

theorem echoBody_accepted (arguments : List CodePoints) (hlength : arguments.length ≤ 64) :
    (echoBody arguments).AcceptedByAll validatorLength
      ⟨"echo".toList, some (arguments.map runes), [], 60⟩
      ⟨constant "echo", arguments.map joinPairs, [], some 60⟩ where
  go_reads := by
    have hname : runes (constant "echo") = "echo".toList := by decide +kernel
    rw [Body.go, echoBody, hname]
    rfl
  go_accepts :=
    have haccepted : GoRequest.accepted ⟨"echo".toList, none, [], 60⟩ = true := by decide +kernel
    haccepted
  python_reads := by
    have hname : joinPairs (constant "echo") = constant "echo" := by decide +kernel
    rw [Body.python, echoBody, hname]
    rfl
  python_accepts :=
    have haccepted : PythonRequest.accepted ⟨constant "echo", [], [], some 60⟩ = true := by
      decide +kernel
    haccepted
  js_accepts := by
    have hname : validatorLength.within 1 128 (joinPairs (constant "echo")) = true := by
      decide +kernel
    simp [JsRequest.accepted, Body.js, echoBody, hname, Member.map, Member.isOptional, hlength]
  timeout := nofun

/-- A request with one argument. -/
theorem echo_same_job :
    let job := JobId.ofUuid sampleUuid isUuid_sampleUuid
    SameJob (GoRequest.texts "jobs".toList job sampleTime
        ⟨"echo".toList, some [runes (constant "a b")], [], 60⟩)
      ((echoBody [constant "a b"]).js.texts (codePoints "jobs".toList) job
        sampleTime) :=
  (same_job_iff validatorLength sampleUuid isUuid_sampleUuid sampleTime "jobs".toList
    (echoBody_accepted [constant "a b"] (by decide))).mpr (by decide +kernel) _
    (List.mem_cons_self ..) _
    (List.mem_cons_of_mem _ (List.mem_cons_of_mem _ (List.mem_cons_self ..)))

theorem surrogate_lt : 0xD800 < 0x110000 := by decide

/-- `"arguments": ["\ud800"]` -/
def surrogateBody : Body := echoBody [[⟨0xD800, surrogate_lt⟩]]

/-- All three accept it.  Go sends U+FFFD for the argument, the other two an unpaired
    surrogate. -/
theorem surrogate_other_job :
    let job := JobId.ofUuid sampleUuid isUuid_sampleUuid
    let go : GoRequest := ⟨"echo".toList, some [[replacementChar]], [], 60⟩
    let python : PythonRequest := ⟨constant "echo", [[⟨0xD800, by decide⟩]], [], some 60⟩
    surrogateBody.AcceptedByAll validatorLength go python ∧
    surrogateBody.js.arguments = .value python.arguments ∧
    ¬ SameJob (go.texts "jobs".toList job sampleTime)
      (python.texts (codePoints "jobs".toList) job sampleTime) ∧
    ¬ SameJob (go.texts "jobs".toList job sampleTime)
      (surrogateBody.js.texts (codePoints "jobs".toList) job sampleTime) := by
  intro job go python
  have haccepted : surrogateBody.AcceptedByAll validatorLength go python :=
    echoBody_accepted [[⟨0xD800, by decide⟩]] (by decide)
  have hsurrogate : ¬ Encodable surrogateBody.strings := by decide +kernel
  refine ⟨haccepted, rfl, fun hsame => hsurrogate ?_, fun hsame => hsurrogate ?_⟩
  · have hmessage := sameValue_of_sameJob hsame
    rw [haccepted.python_texts] at hmessage
    exact Body.encodable_strings.mp
      (encodable_of_sameValue (JsonText.pythonEscaping.spells [32] _) hmessage)
  · have hmessage := sameValue_of_sameJob hsame
    rw [Body.js_texts] at hmessage
    exact Body.encodable_strings.mp
      (encodable_of_sameValue (JsonText.jsEscaping.spells [] _) hmessage)

end TaskForge
