import SlimHub.TrueTail

/-! The command line client.

        CliRequest ──line──▶ readline ──▶ dispatch ──▶ data
                                                         │
        data ◀── decode_response ◀── readline ◀── line ──┘

    Both ends read with `readline`, whose limit of 64 KiB neither of them changes. -/

namespace SlimHub
open Text Nus Json Ble Asyncio Logging LineReader

/-! ### Requests -/

/-- A line count that argparse takes: `int` reads a limited number of digits. -/
structure LineCount where
  value : ℤ
  short : (natText value.natAbs).length ≤ maxIntDigits

/-- What the command line can ask of a daemon, one constructor for each call in `_send`. -/
inductive CliRequest where
  | stop
  | devices
  | configSet (address field value : Str)
  | configApply
  | service (address action service characteristic : Str)
  | reset (address : Str)
  | model (address modelCommand : Str)
  | feature (address featureCommand : Str)
  | file (address filePath savePath : Str)
  | connect (address : Str)
  | commandSend (address command : Str)
  | rawTail (address : Option Str) (lines : LineCount)
  | unitspaceStatus

namespace CliRequest

def command : CliRequest → String
  | .stop => "stop"
  | .devices => "devices"
  | .configSet .. => "config.set"
  | .configApply => "config.apply"
  | .service .. => "service"
  | .reset _ => "reset"
  | .model .. => "model"
  | .feature .. => "feature"
  | .file .. => "file"
  | .connect _ => "connect"
  | .commandSend .. => "command.send"
  | .rawTail .. => "raw.tail"
  | .unitspaceStatus => "unitspace.status"

def args : CliRequest → List (Str × Value)
  | .configSet address field value => [(str "address", .str address), (str "field", .str field),
      (str "value", .str value)]
  | .service address action serviceName characteristic => [(str "address", .str address),
      (str "action", .str action), (str "service", .str serviceName),
      (str "characteristic", .str characteristic)]
  | .reset address => [(str "address", .str address)]
  | .model address modelCommand => [(str "address", .str address),
      (str "model_command", .str modelCommand)]
  | .feature address featureCommand => [(str "address", .str address),
      (str "feature_command", .str featureCommand)]
  | .file address filePath savePath => [(str "address", .str address),
      (str "file_path", .str filePath), (str "save_path", .str savePath)]
  | .connect address => [(str "address", .str address)]
  | .commandSend address command => [(str "address", .str address), (str "command", .str command)]
  | .rawTail address lines => [(str "address", optional address), (str "lines", .int lines.value)]
  | _ => []

/-- The object that is sent. -/
def value (self : CliRequest) : Value :=
  .obj [(str "command", .str (str self.command)), (str "args", .obj self.args)]

end CliRequest

/-! ### `send_request` -/

/-- How a connection cuts up what is written to it. -/
structure Wire where
  chunks : Bytes → List Bytes
  whole : ∀ bytes, (chunks bytes).flatten = bytes

def encodeRequest (cli : Runtime) (request : CliRequest) : Except PyError Bytes :=
  encodeLine cli request.value

def decodeResponse (cli : Runtime) (line : Bytes) : Except PyError (List (Str × Value)) :=
  if line = [] then .error ⟨.runtimeError, [.lit "daemon returned an empty response"]⟩
  else
    match decodeLine cli line with
    | .error exc => .error exc
    | .ok (.obj response) => .ok response
    | .ok _ => .error ⟨.runtimeError, [.lit "daemon response must be a JSON object"]⟩

/-- What `send_request` returns or raises for a line. -/
def responseData (cli : Runtime) (line : Bytes) : Except PyError Value := do
  let response ← decodeResponse cli line
  if truthy cli.toInterpreter (getMember response "ok" .null) then
    return getMember response "data" .null
  else
    .error ⟨.runtimeError, [.str (textOf cli (orElse cli.toInterpreter
      (getMember response "error" .null) (.str (str "daemon request failed"))))]⟩

/-- `send_request` once the request is written: what it makes of the bytes that come back, and of
    the end of the stream if there is one; none if it waits forever. -/
def receive (cli : Runtime) (wire : Wire) (eof : Bool) (sent : Bytes) :
    Option (Except PyError Value) :=
  (readline defaultLimit eof [] (wire.chunks sent)).map fun read => do
    responseData cli (← read.mapError overrunError)

/-- `send_request` to a daemon in this state. `closes` says whether the stream ends where the
    handler raises. -/
def sendRequest (rt cli : Runtime) (paths : AppPaths) (mtime : Files.Path → ℚ)
    (there back : Wire) (closes : Bool) (self : Station) (request : CliRequest) :
    Option (Except PyError Value) :=
  match encodeRequest cli request with
  | .error exc => some (.error exc)
  | .ok line =>
    match readline defaultLimit false [] (there.chunks line) with
    | none => none
    | some read =>
      match ((Daemon.handleStream rt paths mtime read).exec self).result with
      | .ok connection => receive cli back connection.closed connection.sent
      | .error _ => receive cli back closes []

/-! ### Sizes -/

/-- The length of a text in UTF-8. -/
def byteCount (s : Str) : ℕ := ((utf8Encode s).getD []).length

theorem byteCount_of {s : Str} {bytes : Bytes} (h : utf8Encode s = some bytes) :
    byteCount s = bytes.length := by
  rw [byteCount, h]
  rfl

theorem byteCount_append {s t : Str} (hs : noSurrogate s = true) (ht : noSurrogate t = true) :
    byteCount (s ++ t) = byteCount s + byteCount t := by
  obtain ⟨a, ha⟩ := Option.ne_none_iff_exists'.mp (utf8Encode_ne_none.mpr hs)
  obtain ⟨b, hb⟩ := Option.ne_none_iff_exists'.mp (utf8Encode_ne_none.mpr ht)
  have hab : utf8Encode (s ++ t) = some (a ++ b) := by
    rw [utf8Encode_append, ha, hb]
    rfl
  rw [byteCount_of ha, byteCount_of hb, byteCount_of hab, List.length_append]

/-- The keys of a reply take 37 bytes. -/
theorem byteCount_envelope {rt : Runtime} {data : Value} (hclean : clean data = true) :
    byteCount (text rt.floatRepr (envelope true data .null)) =
      byteCount (text rt.floatRepr data) + 37 := by
  have htext : text rt.floatRepr (envelope true data .null) =
      str "\x7b\"ok\": true, \"data\": " ++ (text rt.floatRepr data ++ str ", \"error\": null\x7d") := by
    have hfront : chr '\x7b' :: (stringText (str "ok") ++ str ": " ++ str "true" ++ str ", " ++
        (stringText (str "data") ++ str ": ")) = str "\x7b\"ok\": true, \"data\": " := by decide
    have hback : str ", " ++ (stringText (str "error") ++ str ": " ++ str "null") ++ [chr '\x7d'] =
        str ", \"error\": null\x7d" := by decide
    rw [← hfront, ← hback]
    simp [envelope, text, memberTexts, List.intercalate_cons_cons, List.append_assoc]
  have hdata := (noSurrogate_text rt.floatRepr_clean data).trans hclean
  have hback := noSurrogate_str ", \"error\": null\x7d"
  have hcounts : byteCount (str "\x7b\"ok\": true, \"data\": ") = 21 ∧
      byteCount (str ", \"error\": null\x7d") = 16 := by decide
  rw [htext, byteCount_append (noSurrogate_str _) (by rw [noSurrogate_append, hdata, hback]; rfl),
    byteCount_append hdata hback, hcounts.1, hcounts.2]
  omega

/-! ### Reading -/

section
variable {rt cli : Runtime} {wire : Wire} {eof : Bool} {line : Bytes}

/-- A value that was written on a line is read from it. -/
theorem decodeLine_text {value : Value} (hline : utf8Encode (text rt.floatRepr value) = some line)
    (hloads : loads cli.readDepth (text rt.floatRepr value ++ [0x0A]) = .ok value) :
    decodeLine cli (line ++ [lineFeed]) = .ok value := by
  have hfeed : utf8Encode [0x0A] = some [lineFeed] := by decide
  have hwhole : utf8Encode (text rt.floatRepr value ++ [0x0A]) = some (line ++ [lineFeed]) := by
    rw [utf8Encode_append, hline, hfeed]
    rfl
  rw [decodeLine, utf8Decode_utf8Encode hwhole]
  simp only [hloads]

theorem readline_short (hfeed : lineFeed ∉ line) (hlimit : line.length ≤ defaultLimit) :
    readline defaultLimit eof [] (wire.chunks (line ++ [lineFeed])) =
      some (.ok (line ++ [lineFeed])) :=
  readline_line (by rw [wire.whole]; rfl) hfeed hlimit

theorem readline_long (hfeed : lineFeed ∉ line) (hlimit : defaultLimit < line.length) :
    ∃ overrun, readline defaultLimit eof [] (wire.chunks (line ++ [lineFeed])) =
      some (.error overrun) :=
  readline_overrun (by rw [wire.whole]; rfl) hfeed hlimit

theorem receive_short (hfeed : lineFeed ∉ line) (hlimit : line.length ≤ defaultLimit) :
    receive cli wire eof (line ++ [lineFeed]) = some (responseData cli (line ++ [lineFeed])) := by
  rw [receive, readline_short hfeed hlimit]
  rfl

theorem receive_long (hfeed : lineFeed ∉ line) (hlimit : defaultLimit < line.length) :
    ∃ exc, receive cli wire eof (line ++ [lineFeed]) = some (.error exc) := by
  obtain ⟨overrun, hread⟩ := @readline_long wire eof line hfeed hlimit
  rw [receive, hread]
  exact ⟨overrunError overrun, rfl⟩

/-- From nothing comes no data. -/
theorem receive_nothing : receive cli wire eof [] = none ∨
    ∃ exc, receive cli wire eof [] = some (.error exc) := by
  have hempty : ∀ chunk ∈ wire.chunks [], chunk = [] :=
    List.flatten_eq_nil_iff.mp (wire.whole [])
  have hread : readline defaultLimit eof [] (wire.chunks []) = none ∨
      readline defaultLimit eof [] (wire.chunks []) = some (.ok []) := by
    generalize wire.chunks [] = chunks at hempty
    induction chunks with
    | nil => cases eof <;> simp [readline, look]
    | cons chunk chunks ih =>
      obtain ⟨rfl, hrest⟩ := List.forall_mem_cons.mp hempty
      simpa [readline, look] using ih hrest
  rcases hread with hread | hread
  · exact .inl (by rw [receive, hread]; rfl)
  · exact .inr ⟨_, by rw [receive, hread]; rfl⟩

theorem responseData_of {value : Value} (h : decodeLine cli line = .ok value) (hne : line ≠ [])
    {ok : Bool} {data error : Value} (hvalue : value = envelope ok data error) :
    responseData cli line = if ok then .ok data else .error ⟨.runtimeError, [.str (textOf cli
      (orElse cli.toInterpreter error (.str (str "daemon request failed"))))]⟩ := by
  subst hvalue
  have hdecode : decodeResponse cli line =
      .ok [(str "ok", .bool ok), (str "data", data), (str "error", error)] := by
    rw [decodeResponse, if_neg hne, h]
    rfl
  have hkeys : str "ok" ≠ str "data" ∧ str "ok" ≠ str "error" ∧ str "data" ≠ str "error" := by
    decide
  rw [responseData, hdecode]
  simp [bind, Except.bind, getMember, Dict.find, hkeys.1, hkeys.2.1, hkeys.2.2, truthy, pure,
    Except.pure]

end

/-! ### What the daemon reads -/

namespace CliRequest

theorem exact_args (self : CliRequest) :
    (self.args.map Prod.fst).Nodup ∧ MembersExact self.args := by
  cases self with
  | rawTail address lines =>
    refine ⟨show [str "address", str "lines"].Nodup by decide, ?_, lines.short, trivial⟩
    cases address <;> trivial
  | configSet address field value =>
    exact ⟨show [str "address", str "field", str "value"].Nodup by decide, trivial, trivial, trivial,
      trivial⟩
  | service address action serviceName characteristic =>
    exact ⟨show [str "address", str "action", str "service", str "characteristic"].Nodup by decide,
      trivial, trivial, trivial, trivial, trivial⟩
  | reset address => exact ⟨List.nodup_singleton _, trivial, trivial⟩
  | model address modelCommand =>
    exact ⟨show [str "address", str "model_command"].Nodup by decide, trivial, trivial, trivial⟩
  | feature address featureCommand =>
    exact ⟨show [str "address", str "feature_command"].Nodup by decide, trivial, trivial, trivial⟩
  | file address filePath savePath =>
    exact ⟨show [str "address", str "file_path", str "save_path"].Nodup by decide, trivial, trivial,
      trivial, trivial⟩
  | connect address => exact ⟨List.nodup_singleton _, trivial, trivial⟩
  | commandSend address command =>
    exact ⟨show [str "address", str "command"].Nodup by decide, trivial, trivial, trivial⟩
  | _ => exact ⟨List.nodup_nil, trivial⟩

theorem exact_value (self : CliRequest) : Exact self.value :=
  ⟨show [str "command", str "args"].Nodup by decide, trivial, self.exact_args, trivial⟩

theorem nesting_args (self : CliRequest) : membersNesting self.args = 0 := by
  cases self with
  | rawTail address lines => cases address <;> rfl
  | _ => rfl

theorem nesting_value (self : CliRequest) : nesting self.value = 2 := by
  simp [value, nesting, membersNesting, self.nesting_args]

end CliRequest

section
variable {rt cli : Runtime} {paths : AppPaths} {mtime : Files.Path → ℚ} {self : Station}

/-- What is dispatched for a line. -/
theorem dispatched_line {line : Bytes} {value : Value} (h : decodeLine rt line = .ok value) :
    ((Daemon.dispatch rt.toInterpreter (requestOf rt paths mtime self (.ok line))).exec self).result =
      answerTo rt paths mtime self value := by
  cases hread : readRequest rt (tailRaw paths mtime self.logger.disk) value with
  | ok request =>
    have hrequest : requestOf rt paths mtime self (.ok line) = request := by
      simp only [requestOf, Except.mapError, bind, Except.bind, h, hread]
    rw [hrequest, answerTo, hread]
    rfl
  | error exc =>
    have hrequest : requestOf rt paths mtime self (.ok line) = .other (.error exc) := by
      simp only [requestOf, Except.mapError, bind, Except.bind, h, hread]
    rw [hrequest, answerTo, hread]
    rfl

/-- A line that is too long is answered with an error. -/
theorem dispatched_overrun (overrun : Overrun) :
    ((Daemon.dispatch rt.toInterpreter
      (requestOf rt paths mtime self (.error overrun))).exec self).result =
        .error (overrunError overrun) :=
  rfl

variable {there back : Wire} {closes : Bool} {request : CliRequest}

/-! ### A request and its reply -/

theorem sendRequest_unclean (h : clean request.value ≠ true) :
    ∃ exc, sendRequest rt cli paths mtime there back closes self request = some (.error exc) := by
  obtain ⟨exc, hexc⟩ := @encodeLine_error cli request.value fun hwrites => h hwrites.2
  exact ⟨exc, by rw [sendRequest, encodeRequest, hexc]⟩

/-- A request that can be written is one line. -/
theorem encodeRequest_clean (h : clean request.value = true) :
    ∃ line, utf8Encode (text cli.floatRepr request.value) = some line ∧
      encodeRequest cli request = .ok (line ++ [lineFeed]) ∧ lineFeed ∉ line := by
  refine encodeLine_writes ⟨?_, h⟩
  rw [request.nesting_value, Runtime.replyDepth]
  omega

theorem sendRequest_long (h : clean request.value = true)
    (hlimit : defaultLimit < byteCount (text cli.floatRepr request.value)) :
    ∃ exc, sendRequest rt cli paths mtime there back closes self request = some (.error exc) := by
  obtain ⟨line, hline, hencode, hfeed⟩ := @encodeRequest_clean cli request h
  rw [byteCount_of hline] at hlimit
  obtain ⟨overrun, hread⟩ := @readline_long there false line hfeed hlimit
  have hclean : PyError.Clean (overrunError overrun) := by
    cases overrun <;> exact clean_lit (by simp)
  -- the daemon answers, and the client raises what it is told
  obtain ⟨reply, hreply, hok, hreplyFeed⟩ := @encodeLine_writes rt _ (delivers_error hclean)
  have hresult : ((Daemon.handleStream rt paths mtime (.error overrun)).exec self).result =
      .ok { sent := reply ++ [lineFeed], closed := true } := by
    rw [result_handleStream, dispatched_overrun, hok]
    rfl
  have hsend : sendRequest rt cli paths mtime there back closes self request =
      receive cli back true (reply ++ [lineFeed]) := by
    simp only [sendRequest, hencode, hread, hresult]
  rw [hsend]
  by_cases hshort : reply.length ≤ defaultLimit
  · rw [receive_short hreplyFeed hshort]
    have hexact : Exact (response rt (.error (overrunError overrun))) :=
      ⟨show [str "ok", str "data", str "error"].Nodup by decide, trivial, trivial, trivial, trivial⟩
    have hdecode := decodeLine_text hreply (loads_text hexact cli.readDepth_pos (.inr rfl))
    rw [responseData_of hdecode (by simp) rfl]
    exact ⟨_, rfl⟩
  · exact receive_long hreplyFeed (Nat.not_le.mp hshort)

/-- A line within the limit is dispatched. -/
theorem sendRequest_short (hdepth : 2 ≤ rt.readDepth) (h : clean request.value = true)
    (hlimit : byteCount (text cli.floatRepr request.value) ≤ defaultLimit) :
    sendRequest rt cli paths mtime there back closes self request =
      match encodeLine rt (response rt (answerTo rt paths mtime self request.value)) with
      | .ok sent => receive cli back true sent
      | .error _ => receive cli back closes [] := by
  obtain ⟨line, hline, hencode, hfeed⟩ := @encodeRequest_clean cli request h
  rw [byteCount_of hline] at hlimit
  have hread := @readline_short there false line hfeed hlimit
  have hnesting : nesting request.value ≤ rt.readDepth := by rwa [request.nesting_value]
  have hdecode := decodeLine_text hline (loads_text request.exact_value hnesting (.inr rfl))
  simp only [sendRequest, hencode, hread, result_handleStream, dispatched_line hdecode]
  cases encodeLine rt (response rt (answerTo rt paths mtime self request.value)) <;> rfl

/-- A reply that is too long is not received. -/
theorem sendRequest_longReply (hdepth : 2 ≤ rt.readDepth) (h : clean request.value = true)
    (hlimit : byteCount (text cli.floatRepr request.value) ≤ defaultLimit) {reply : Reply}
    (hanswer : answerTo rt paths mtime self request.value = .ok reply)
    (hwrites : Writes (rt.innerDepth + 3) (dataOf rt reply))
    (hlong : defaultLimit < byteCount (text rt.floatRepr (dataOf rt reply)) + 37) :
    ∃ exc, sendRequest rt cli paths mtime there back closes self request = some (.error exc) := by
  obtain ⟨line, hline, hok, hfeed⟩ := encodeLine_writes (delivers_ok.mpr hwrites)
  have hcount : line.length = byteCount (text rt.floatRepr (dataOf rt reply)) + 37 := by
    rw [← byteCount_of hline]
    exact byteCount_envelope hwrites.2
  rw [sendRequest_short hdepth h hlimit, hanswer]
  simp only [hok]
  exact receive_long hfeed (hcount ▸ hlong)

end

/-- The client reads a reply with this data as it was written. -/
def Rereads (rt cli : Runtime) (data : Value) : Prop :=
  loads cli.readDepth (text rt.floatRepr (envelope true data .null) ++ [0x0A]) =
    .ok (envelope true data .null)

/-- CORRECT: where the daemon has an answer, the client returns its data just when request and reply
    can be written, and neither is longer than `readline` reads; the keys of a reply take 37 bytes
    of it. -/
theorem client_receives_iff (rt cli : Runtime) (paths : AppPaths) (mtime : Files.Path → ℚ)
    (there back : Wire) (closes : Bool) (self : Station) (request : CliRequest) (reply : Reply)
    (hdepth : 2 ≤ rt.readDepth)
    (hanswer : answerTo rt paths mtime self request.value = .ok reply)
    (hjson : Rereads rt cli (dataOf rt reply)) :
    sendRequest rt cli paths mtime there back closes self request = some (.ok (dataOf rt reply)) ↔
      clean request.value = true ∧
      byteCount (text cli.floatRepr request.value) ≤ defaultLimit ∧
      Writes (rt.innerDepth + 3) (dataOf rt reply) ∧
      byteCount (text rt.floatRepr (dataOf rt reply)) + 37 ≤ defaultLimit := by
  have hfails : ∀ {sent : Option (Except PyError Value)}, (∃ exc, sent = some (.error exc)) →
      ¬sent = some (.ok (dataOf rt reply)) := by
    rintro _ ⟨exc, rfl⟩ heq
    cases heq
  by_cases hclean : clean request.value = true
  · by_cases hlimit : byteCount (text cli.floatRepr request.value) ≤ defaultLimit
    · by_cases hwrites : Writes (rt.innerDepth + 3) (dataOf rt reply)
      · by_cases hshort : byteCount (text rt.floatRepr (dataOf rt reply)) + 37 ≤ defaultLimit
        · obtain ⟨line, hline, hok, hfeed⟩ := encodeLine_writes (delivers_ok.mpr hwrites)
          have hlength : line.length ≤ defaultLimit := by
            rw [← byteCount_of hline]
            exact (byteCount_envelope hwrites.2).trans_le hshort
          refine iff_of_true ?_ ⟨hclean, hlimit, hwrites, hshort⟩
          rw [sendRequest_short hdepth hclean hlimit, hanswer]
          simp only [hok]
          rw [receive_short hfeed hlength, responseData_of (decodeLine_text hline hjson) (by simp) rfl]
          rfl
        · refine iff_of_false (hfails ?_) fun h => hshort h.2.2.2
          exact sendRequest_longReply hdepth hclean hlimit hanswer hwrites (Nat.not_le.mp hshort)
      · obtain ⟨exc, hexc⟩ := encodeLine_error fun h => hwrites (delivers_ok.mp h)
        refine iff_of_false ?_ fun h => hwrites h.2.2.1
        rw [sendRequest_short hdepth hclean hlimit, hanswer]
        simp only [hexc]
        rcases @receive_nothing cli back closes with hnone | herror
        · rw [hnone]
          simp
        · exact hfails herror
    · refine iff_of_false (hfails ?_) fun h => hlimit h.2.1
      exact sendRequest_long hclean (Nat.not_le.mp hlimit)
  · exact iff_of_false (hfails (sendRequest_unclean hclean)) fun h => hclean h.1

/-! ### A long log -/

/-- A wire that brings everything at once. -/
def direct : Wire where
  chunks bytes := [bytes]
  whole _ := List.flatten_singleton

theorem exact_strings (rows : List Str) : ItemsExact (rows.map Value.str) := by
  induction rows with
  | nil => trivial
  | cons row rows ih => exact ⟨trivial, ih⟩

theorem nesting_strings (rows : List Str) : itemsNesting (rows.map Value.str) = 0 := by
  induction rows with
  | nil => rfl
  | cons row rows ih =>
    rw [List.map_cons, itemsNesting, ih]
    rfl

/-- Lines are read as they were written. -/
theorem rereads_lines (rt : Runtime) {cli : Runtime} (hdepth : 3 ≤ cli.readDepth)
    (rows : List Str) : Rereads rt cli (dataOf rt (.lines rows)) := by
  have hexact : Exact (envelope true (dataOf rt (.lines rows)) .null) :=
    ⟨show [str "ok", str "data", str "error"].Nodup by decide, trivial,
      ⟨List.nodup_singleton _, exact_strings rows, trivial⟩, trivial, trivial⟩
  have hnesting : nesting (envelope true (dataOf rt (.lines rows)) .null) = 3 := by
    simp [envelope, dataOf, nesting, membersNesting, nesting_strings]
  exact loads_text hexact (hnesting ▸ hdepth) (.inr rfl)

theorem length_le_byteCount {s : Str} (h : noSurrogate s = true) : s.length ≤ byteCount s := by
  induction s with
  | nil => exact Nat.zero_le _
  | cons c s ih =>
    rw [noSurrogate_cons, Bool.and_eq_true, Bool.not_eq_true'] at h
    obtain ⟨bytes, hbytes⟩ := Option.ne_none_iff_exists'.mp
      (utf8Encode_ne_none.mpr (show noSurrogate [c] = true by simp [h.1]))
    have hne : bytes ≠ [] := by
      rintro rfl
      cases utf8Decode_utf8Encode hbytes
    have hpos := List.length_pos_iff.mpr hne
    have hrest := ih h.2
    rw [← List.singleton_append, byteCount_append (by simp [h.1]) h.2, byteCount_of hbytes,
      List.length_append, List.length_singleton]
    omega

/-- Joined, the same text `n` times takes its length `n` times. -/
theorem length_intercalate_replicate {α : Type} (sep item : List α) (n : ℕ) :
    n * item.length ≤ (sep.intercalate (List.replicate n item)).length := by
  induction n with
  | zero => simp
  | succ n ih =>
    cases n with
    | zero => simp
    | succ n =>
      rw [List.replicate_succ, List.replicate_succ, List.intercalate_cons_cons,
        ← List.replicate_succ, Nat.succ_mul]
      simp only [List.length_append]
      omega

theorem itemTexts_replicate (floatRepr : Str → Str) (value : Value) (n : ℕ) :
    itemTexts floatRepr (List.replicate n value) = List.replicate n (text floatRepr value) := by
  induction n with
  | zero => rfl
  | succ n ih => rw [List.replicate_succ, itemTexts, ih, List.replicate_succ]

/-- A reply with `n` rows takes `n` times the text of a row. -/
theorem le_byteCount_rows {rt : Runtime} {row : Str} (n : ℕ)
    (hclean : clean (dataOf rt (.lines (List.replicate n row))) = true) :
    n * (stringText row).length ≤
      byteCount (text rt.floatRepr (dataOf rt (.lines (List.replicate n row)))) := by
  refine le_trans ?_ (length_le_byteCount ((noSurrogate_text rt.floatRepr_clean _).trans hclean))
  have hjoined := length_intercalate_replicate (str ", ") (stringText row) n
  simp only [dataOf, text, memberTexts, List.map_replicate, itemTexts_replicate,
    List.intercalate_singleton, List.length_append, List.length_cons]
  omega

/-- The one row of the log of `loggedStation`. -/
def loggedRow : Str :=
  ((tailRaw somePaths (fun _ => 0) loggedStation.logger.disk none 1).toOption.getD []).headD []

theorem noSurrogate_loggedRow : noSurrogate loggedRow = true := by
  decide +kernel

theorem noControl_loggedRow : loggedRow.all (0x20 ≤ ·.val) = true := by
  decide +kernel

theorem length_loggedRow : (stringText loggedRow).length = 90 := by
  decide +kernel

/-- The command line asks for the last `n` lines. -/
def lastLines (n : ℕ) (h : (natText n).length ≤ maxIntDigits) : CliRequest := .rawTail none ⟨n, h⟩

/-- The last line of a log is received. -/
theorem client_receives_last_line :
    sendRequest freshRuntime freshRuntime somePaths (fun _ => 0) direct direct true loggedStation
      (lastLines 1 (by decide)) = some (.ok (dataOf freshRuntime (.lines [loggedRow]))) := by
  have htail : tailRaw somePaths (fun _ => 0) loggedStation.logger.disk none 1 =
      .ok [loggedRow] := by
    decide +kernel
  have hanswer : answerTo freshRuntime somePaths (fun _ => 0) loggedStation (tailRequest none 1) =
      .ok (.lines [loggedRow]) := by
    rw [answerTo_tailRequest]
    exact congrArg (Except.map Reply.lines) htail
  refine (client_receives_iff freshRuntime freshRuntime somePaths (fun _ => 0) direct direct true
    loggedStation (lastLines 1 (by decide)) (.lines [loggedRow]) (by decide) hanswer
    (rereads_lines _ (by decide) _)).mpr ⟨?_, ?_, ⟨?_, ?_⟩, ?_⟩
  all_goals decide +kernel

/-- A thousand such rows. -/
def longLog : Bytes :=
  (utf8Encode ((List.replicate 1000 loggedRow).flatMap (· ++ str "\r\n"))).getD []

/-- A station with that one log. -/
def longStation : Station :=
  { loggedStation with
    logger.disk.nodes := loggedStation.logger.disk.nodes.set loggedFile (.file longLog) }

theorem rawFiles_longStation :
    rawFiles somePaths longStation.logger.disk none = .ok [loggedFile] := by
  decide +kernel

theorem answerTo_longStation :
    answerTo freshRuntime somePaths (fun _ => 0) longStation (tailRequest none 1000) =
      .ok (.lines (List.replicate 1000 loggedRow)) := by
  have hplain : ∀ row ∈ List.replicate 1000 loggedRow, ∀ c ∈ row, c ≠ 0x0A ∧ c ≠ 0x0D := by
    intro row hrow c hc
    obtain rfl := List.eq_of_mem_replicate hrow
    have hval : 0x20 ≤ c.val := of_decide_eq_true (List.all_eq_true.mp noControl_loggedRow c hc)
    constructor <;> (rintro rfl; exact absurd hval (by decide))
  have hclean : noSurrogate ((List.replicate 1000 loggedRow).flatMap (· ++ str "\r\n")) = true := by
    have hend : noSurrogate (str "\r\n") = true := by decide
    refine List.all_eq_true.mpr fun c hc => ?_
    obtain ⟨row, hrow, hc⟩ := List.mem_flatMap.mp hc
    obtain rfl := List.eq_of_mem_replicate hrow
    rcases List.mem_append.mp hc with hc | hc
    · exact List.all_eq_true.mp noSurrogate_loggedRow c hc
    · exact List.all_eq_true.mp hend c hc
  obtain ⟨content, hcontent⟩ := Option.ne_none_iff_exists'.mp (utf8Encode_ne_none.mpr hclean)
  have hfile : longStation.logger.disk.file? loggedFile = some content := by
    have hlong : longLog = content := by rw [longLog, hcontent]; rfl
    have hpath : loggedFile ≠ [] := by decide +kernel
    rw [← hlong, Files.FS.file?, Files.FS.node?, if_neg hpath, longStation, Dict.get?_set_self]
  have hnewest : Newest (fun _ => 0) longStation.logger.disk [loggedFile]
      (List.replicate 1000 loggedRow) :=
    ⟨loggedFile, by simp, by simp, content, _, hfile, utf8Decode_utf8Encode hcontent,
      (textLines_rows hplain).symm⟩
  have hall : (List.replicate 1000 loggedRow).rtake 1000 = List.replicate 1000 loggedRow := by
    rw [List.rtake, List.length_replicate]
    rfl
  rw [answerTo_tailRequest, Option.filter_none,
    tailRaw_of_newest _ rawFiles_longStation (by simp) hnewest, sliceFrom_neg (by simp), hall]
  rfl

/-- Every line of a log is asked for, and the client is not told one. -/
theorem long_tail_not_received :
    let reply := Reply.lines (List.replicate 1000 loggedRow)
    let request := lastLines 1000 (by decide)
    answerTo freshRuntime somePaths (fun _ => 0) longStation request.value = .ok reply ∧
      Rereads freshRuntime freshRuntime (dataOf freshRuntime reply) ∧
      sendRequest freshRuntime freshRuntime somePaths (fun _ => 0) direct direct true longStation
        request ≠ some (.ok (dataOf freshRuntime reply)) := by
  intro reply request
  have hwrites : Writes (freshRuntime.innerDepth + 3) (dataOf freshRuntime reply) :=
    writes_lines.mpr fun row hrow => List.eq_of_mem_replicate hrow ▸ noSurrogate_loggedRow
  have hlong : defaultLimit <
      byteCount (text freshRuntime.floatRepr (dataOf freshRuntime reply)) + 37 := by
    have hrows := @le_byteCount_rows freshRuntime loggedRow 1000 hwrites.2
    rw [length_loggedRow] at hrows
    exact lt_of_lt_of_le (by decide) (hrows.trans (Nat.le_add_right _ 37))
  obtain ⟨exc, hexc⟩ := @sendRequest_longReply freshRuntime freshRuntime somePaths (fun _ => 0)
    longStation direct direct true request (by decide) (by decide +kernel) (by decide +kernel) reply
    answerTo_longStation hwrites hlong
  refine ⟨answerTo_longStation, rereads_lines _ (by decide) _, ?_⟩
  rw [hexc]
  simp

end SlimHub
