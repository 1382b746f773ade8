import GroundDB.Worker.Pipe

/-!
# The protocol between the storage server and a replay worker

A request of the storage server takes a worker for itself, writes its messages and reads the reply;
the worker reads commands in a loop and answers each of them.  `session` runs a list of requests
over the two pipes, with any answers of the system to the calls of both sides.

For requests that can be sent (`ServerRequest.Sendable`) the worker decodes exactly the commands of
each request, with no byte of a message left over, and the server takes exactly the bytes of the
reply; both pipes are empty after each request (`roundTrip_iff`).  Other requests are not received:
whatever a worker decodes fits the byte of the fork number and the longest message
(`fits_of_serveCommands`), and a synchronisation never ends, since it writes to no descriptor.
-/

namespace GroundDB

open Pipe Wire

/-! ## The worker -/

/-- The rest of `ReadRedoCommand`: the fields of a message whose length was read as `len`. -/
def readPayload (qtype : UInt8) (len : ℤ) (rd : PipeReader) (calls : List ReadCall) :
    Option (Option (UInt8 × List UInt8) × PipeReader × List ReadCall) :=
  if len < 4 then
    none
  else if ServerRequest.maxAllocSize ≤ (len - 4).toNat then
    -- `enlargeStringInfo` gives up
    none
  else do
    let body ← bufferedRead (len - 4).toNat [] rd calls
    let payload ← body.1
    if payload.length ≠ (len - 4).toNat then none else some (some (qtype, payload), body.2)

/-- `ReadRedoCommand`: the type and the fields of the next message, `none` at the end of the stream.
There is no result while the worker waits for more bytes, and after an error. -/
def readRedoCommand (rd : PipeReader) (calls : List ReadCall) :
    Option (Option (UInt8 × List UInt8) × PipeReader × List ReadCall) := do
  let hdr ← bufferedRead 5 [] rd calls
  let bytes ← hdr.1
  if bytes = [] then
    some (none, hdr.2)
  else if bytes.length ≠ 5 then
    none
  else
    readPayload (bytes.headD 0) (int32 (ofBigEndian bytes.tail)) hdr.2.1 hdr.2.2

/-- What the handlers of a worker answer, given the commands so far: the size of a relation and the
page of any command that is answered with a page. -/
structure Handlers where
  relSize : List Command → RelTag → UInt32
  page : List Command → Command → BlockImage

/-- The bytes of an `int` in memory. -/
def intBytes (n : ℕ) : List UInt8 := (bigEndian 4 n).reverse

/-- What the worker writes in answer to a command. -/
def replyTo (h : Handlers) (past : List Command) : Command → List UInt8
  | .getRelSize rel => intBytes (h.relSize past rel).toNat
  | .createRel _ => intBytes 1
  | .extendRel _ _ => intBytes 1
  | .applyXlogUntil _ => []
  | .syncLsnReplay _ => [typeByte 'o', typeByte 'k']
  | c => (h.page past c).bytes

/-- What a worker did in a number of turns of its loop: the commands with what was left of their
messages, what it wrote, and what it has not read. -/
structure WorkerTurns where
  decoded : List (Command × List UInt8)
  replies : List UInt8
  reader : PipeReader

/-- The loop of `WalRedoMain`, until the next command would wait for the next request. -/
def serveCommands (h : Handlers) :
    ℕ → List Command → PipeReader → List ReadCall → Option WorkerTurns
  | 0, _, _, _ => none
  | turns + 1, past, rd, calls =>
      if rd.unread = [] then some ⟨[], [], rd⟩
      else do
        let msg ← readRedoCommand rd calls
        let typed ← msg.1
        let cmd ← decode typed.1 typed.2
        let later ← serveCommands h turns (past ++ [cmd.1]) msg.2.1 msg.2.2
        pure ⟨cmd :: later.decoded, replyTo h past cmd.1 ++ later.replies, later.reader⟩

/-- The replies to a list of commands. -/
def repliesTo (h : Handlers) : List Command → List Command → List UInt8
  | _, [] => []
  | past, c :: cs => replyTo h past c ++ repliesTo h (past ++ [c]) cs

/-! ## Sessions -/

/-- One send loop. -/
def Send.run (outside : ℤ → UInt8) (s : Send) (calls : List WriteCall) :
    Option (List UInt8 × List WriteCall) :=
  match s.fd with
  | .serverPipe => sendLoop (memory outside s.requestBuffer) s.targetMsgLen 0 calls
  | .notOpen =>
      sendLoop (memory outside s.requestBuffer) s.targetMsgLen 0 (calls.map fun _ => .failed)

/-- The send loops of a request, one after another. -/
def sendAll (outside : ℤ → UInt8) : List Send → List WriteCall → Option (List UInt8)
  | [], _ => some []
  | s :: ss, calls => do
      let sent ← s.run outside calls
      let later ← sendAll outside ss sent.2
      pure (sent.1 ++ later)

/-- A request with the flush position it finds and what the system answers to the calls made for it,
on both sides. -/
structure Exchange where
  request : ServerRequest
  flushedUpto : Option UInt64
  writes : List WriteCall
  workerReads : List ReadCall
  serverReads : List ReadCall

/-- The commands of the request. -/
def Exchange.commands (ex : Exchange) : List Command := ex.request.commands ex.flushedUpto

/-- The two pipes of a worker. -/
structure Link where
  reader : PipeReader
  replies : List UInt8
deriving DecidableEq

/-- Nothing is under way. -/
def Link.idle : Link := ⟨⟨[], []⟩, []⟩

/-- What happened in an exchange: the commands decoded with what was left of their messages, what
the worker wrote, what the server read, and the pipes after it. -/
structure ExchangeResult where
  decoded : List (Command × List UInt8)
  replied : List UInt8
  received : List UInt8
  link : Link

/-- A request and its reply. -/
def exchange (h : Handlers) (outside : ℤ → UInt8) (past : List Command) (link : Link)
    (ex : Exchange) : Option ExchangeResult := do
  let bytes ← sendAll outside (ex.request.sends ex.flushedUpto) ex.writes
  let rd : PipeReader := ⟨link.reader.stdin, link.reader.pipe ++ bytes⟩
  let served ← serveCommands h (rd.unread.length + 1) past rd ex.workerReads
  let got ← receive ex.request.replySize (link.replies ++ served.replies) ex.serverReads
  pure ⟨served.decoded, served.replies, got.1, ⟨served.reader, got.2⟩⟩

/-- Requests to one worker, one after another. -/
def session (h : Handlers) (outside : ℤ → UInt8) :
    List Command → Link → List Exchange → Option (List ExchangeResult)
  | _, _, [] => some []
  | past, link, ex :: exs => do
      let result ← exchange h outside past link ex
      let later ← session h outside (past ++ result.decoded.map Prod.fst) result.link exs
      pure (result :: later)

/-- The worker decoded the commands of the request with nothing left of their messages, the server
read what the worker wrote, and nothing is under way. -/
def ExchangeResult.Exact (ex : Exchange) (result : ExchangeResult) : Prop :=
  result.decoded = ex.commands.map (fun c => (c, [])) ∧ result.received = result.replied ∧
    result.link = Link.idle

/-- Every request of a session is decoded and answered exactly. -/
def RoundTrip (h : Handlers) (outside : ℤ → UInt8) (exs : List Exchange) : Prop :=
  ∃ results, session h outside [] Link.idle exs = some results ∧
    List.Forall₂ ExchangeResult.Exact exs results

/-- The bytes of the messages of a request. -/
def Exchange.messageBytes (ex : Exchange) : ℕ :=
  ((ex.request.sends ex.flushedUpto).map fun s => s.requestBuffer.length).sum

/-- The pipes are reliable and pass on everything: no write fails and enough calls of each side move
something. -/
structure Exchange.Reliable (ex : Exchange) : Prop where
  writes : Accepts ex.writes ex.messageBytes
  workerReads : Delivers ex.workerReads ex.messageBytes
  serverReads : Delivers ex.serverReads ex.request.replySize

/-! ## What is decoded fits -/

lemma length_of_readPayload {rd rd' : PipeReader} {calls calls' : List ReadCall} {len : ℤ}
    {qtype qtype' : UInt8} {payload : List UInt8}
    (h : readPayload qtype len rd calls = some (some (qtype', payload), rd', calls')) :
    payload.length < ServerRequest.maxAllocSize := by
  unfold readPayload at h
  split at h
  · cases h
  · split at h
    · cases h
    case isFalse hroom =>
      simp only [Option.bind_eq_bind, Option.bind_eq_some_iff] at h
      obtain ⟨body, -, payload', -, h⟩ := h
      split at h
      · cases h
      case isFalse hlen =>
        obtain ⟨⟨-, rfl⟩, -⟩ : ((_ ∧ payload' = payload) ∧ _) := by simpa using h
        omega

/-- A message that was read is one for which there was room. -/
lemma length_of_readRedoCommand {rd rd' : PipeReader} {calls calls' : List ReadCall} {qtype : UInt8}
    {payload : List UInt8}
    (h : readRedoCommand rd calls = some (some (qtype, payload), rd', calls')) :
    payload.length < ServerRequest.maxAllocSize := by
  simp only [readRedoCommand, Option.bind_eq_bind, Option.bind_eq_some_iff] at h
  obtain ⟨hdr, -, bytes, -, h⟩ := h
  split at h
  · cases h
  · split at h
    · cases h
    · exact length_of_readPayload h

lemma fits_of_serveCommands {h : Handlers} {turns : ℕ} {past : List Command} {rd : PipeReader}
    {calls : List ReadCall} {served : WorkerTurns}
    (hserve : serveCommands h turns past rd calls = some served) :
    ∀ cmd ∈ served.decoded, cmd.1.Fits := by
  induction turns generalizing past rd calls served with
  | zero => cases hserve
  | succ turns ih =>
      rw [serveCommands] at hserve
      split at hserve
      · cases hserve
        simp
      · simp only [Option.bind_eq_bind, Option.bind_eq_some_iff] at hserve
        obtain ⟨msg, hread, typed, htyped, cmd, hcmd, later, hlater, heq⟩ := hserve
        cases heq
        rintro c (_ | ⟨_, hc⟩)
        · have hroom : typed.2.length < ServerRequest.maxAllocSize :=
            length_of_readRedoCommand (by rw [hread, ← htyped])
          have hsize : 0 + typed.2.length = cmd.1.fields.length + cmd.2.length :=
            sized_decode typed.1 typed.2 cmd.1 cmd.2 hcmd
          exact ⟨yields_decode typed.1 typed.2 cmd.1 cmd.2 hcmd, by omega⟩
        · exact ih hlater c hc

/-- Writes to no descriptor never finish. -/
lemma sendLoop_notOpen {mem : ℤ → UInt8} {targetMsgLen sendLen : ℤ} (hlt : sendLen < targetMsgLen)
    (calls : List WriteCall) :
    sendLoop mem targetMsgLen sendLen (calls.map fun _ => .failed) = none := by
  induction calls generalizing sendLen with
  | nil => simp [sendLoop, hlt]
  | cons call calls ih =>
      rw [List.map_cons, sendLoop, if_neg (by omega)]
      exact ih (by omega)

/-- Only requests that can be sent are decoded exactly. -/
lemma sendable_of_exact {h : Handlers} {outside : ℤ → UInt8} {past : List Command} {link : Link}
    {ex : Exchange} {result : ExchangeResult} (hrun : exchange h outside past link ex = some result)
    (hexact : result.Exact ex) : ex.request.Sendable := by
  simp only [exchange, Option.bind_eq_bind, Option.bind_eq_some_iff] at hrun
  obtain ⟨bytes, hsend, served, hserve, got, -, heq⟩ := hrun
  cases heq
  refine (ServerRequest.sendable_iff_fits ex.flushedUpto ?_).mpr ?_
  · intro hsync
    rw [hsync, ServerRequest.sends, sendAll, Send.run,
      sendLoop_notOpen (show (0 : ℤ) < 1 + 4 + 8 by decide)] at hsend
    cases hsend
  · intro c hc
    refine fits_of_serveCommands hserve (c, []) ?_
    rw [show served.decoded = ex.commands.map (fun c => (c, [])) from hexact.1]
    exact List.mem_map_of_mem hc

/-! ## What can be sent is decoded -/

variable {h : Handlers} {outside : ℤ → UInt8}

lemma readPayload_fields (qtype : UInt8) {fields rest : List UInt8} {rd : PipeReader}
    {calls : List ReadCall} (hmax : fields.length < ServerRequest.maxAllocSize)
    (hunread : rd.unread = fields ++ rest) (hdel : Delivers calls rd.pipe.length) :
    ∃ rd' calls', readPayload qtype ((4 + fields.length : ℕ) : ℤ) rd calls
        = some (some (qtype, fields), rd', calls') ∧
      rd'.unread = rest ∧ Delivers calls' rd'.pipe.length := by
  have hlen : (((4 + fields.length : ℕ) : ℤ) - 4).toNat = fields.length := by omega
  have hcount : fields.length ≤ rd.unread.length := by simp [hunread]
  obtain ⟨rd', calls', hread, hrest, hdel'⟩ := bufferedRead_spec [] hdel hcount
  rw [hunread, List.take_left' rfl, List.nil_append] at hread
  refine ⟨rd', calls', ?_, by rw [hrest, hunread, List.drop_left' rfl], hdel'⟩
  rw [readPayload, if_neg (by omega), hlen, if_neg (by omega), hread]
  simp

lemma readRedoCommand_message {c : Command} {rd : PipeReader} {calls : List ReadCall}
    {rest : List UInt8} (hfits : c.Fits) (hunread : rd.unread = c.message ++ rest)
    (hdel : Delivers calls rd.pipe.length) :
    ∃ rd' calls', readRedoCommand rd calls = some (some (typeByte c.type, c.fields), rd', calls') ∧
      rd'.unread = rest ∧ Delivers calls' rd'.pipe.length := by
  have hmax : c.fields.length < 0x3fffffff := hfits.2
  have hlen : int32 (ofBigEndian (bigEndian 4 (4 + c.fields.length)))
      = (4 + c.fields.length : ℕ) := by
    rw [ofBigEndian_bigEndian, Nat.mod_eq_of_lt (by omega)]
    exact int32_of_lt (by omega)
  -- header and fields, as they lie in the stream
  obtain ⟨hdr, hhdr⟩ : ∃ hdr, hdr = [typeByte c.type] ++ bigEndian 4 (4 + c.fields.length) :=
    ⟨_, rfl⟩
  have hfive : hdr.length = 5 := by simp [hhdr]
  have hstream : rd.unread = hdr ++ (c.fields ++ rest) := by
    rw [hunread, hhdr, Command.message]
    simp
  have hcount : 5 ≤ rd.unread.length := by simp [hstream, hfive]
  obtain ⟨rd₁, calls₁, hread, hrd₁, hdel₁⟩ := bufferedRead_spec [] hdel hcount
  rw [hstream, List.take_left' hfive, List.nil_append] at hread
  rw [hstream, List.drop_left' hfive] at hrd₁
  obtain ⟨rd₂, calls₂, hbody, hrd₂, hdel₂⟩ :=
    readPayload_fields (typeByte c.type) hfits.2 hrd₁ hdel₁
  refine ⟨rd₂, calls₂, ?_, hrd₂, hdel₂⟩
  have hne : hdr ≠ [] := by simp [hhdr]
  have htail : hdr.tail = bigEndian 4 (4 + c.fields.length) := by rw [hhdr]; rfl
  have hhead : hdr.headD 0 = typeByte c.type := by rw [hhdr]; rfl
  simp only [readRedoCommand, hread, Option.bind_eq_bind, Option.bind_some, if_neg hne, hfive,
    ne_eq, not_true_eq_false, if_false, htail, hhead, hlen, hbody]

/-- The worker decodes the commands whose messages are in its stream, and stops when it has consumed
them. -/
lemma serveCommands_messages {cs : List Command} {turns : ℕ} {rd : PipeReader}
    {calls : List ReadCall} (past : List Command) (hfits : ∀ c ∈ cs, c.Fits)
    (hturns : cs.length < turns)
    (hunread : rd.unread = cs.flatMap Command.message) (hdel : Delivers calls rd.pipe.length) :
    ∃ rd', serveCommands h turns past rd calls
        = some ⟨cs.map fun c => (c, []), repliesTo h past cs, rd'⟩ ∧ rd'.unread = [] := by
  induction cs generalizing past turns rd calls with
  | nil =>
      obtain ⟨turns, rfl⟩ := Nat.exists_eq_add_of_lt hturns
      exact ⟨rd, by simp [serveCommands, hunread, repliesTo], hunread⟩
  | cons c cs ih =>
      obtain ⟨turns, rfl⟩ : ∃ n, turns = n + 1 := ⟨turns - 1, by omega⟩
      have hc : c.Fits := hfits c List.mem_cons_self
      have hnil : rd.unread ≠ [] := by simp [hunread, Command.message]
      obtain ⟨rd₁, calls₁, hread, hrd₁, hdel₁⟩ := readRedoCommand_message hc hunread hdel
      have hdecode : decode (typeByte c.type) c.fields = some (c, []) := by
        have hmax : c.fields.length < 0x3fffffff := hc.2
        have hparse := parses_decode hc.1 (by omega) []
        rwa [List.append_nil] at hparse
      obtain ⟨rd', hlater, hend⟩ := ih (past ++ [c])
        (fun c' hc' => hfits c' (List.mem_cons_of_mem _ hc')) (by simpa using hturns) hrd₁ hdel₁
      refine ⟨rd', ?_, hend⟩
      rw [serveCommands, if_neg hnil]
      simp [hread, hdecode, hlater, repliesTo]

/-- Send loops whose calls do not fail put the messages into the pipe. -/
lemma sendAll_commands {cs : List Command} {calls : List WriteCall}
    (haccepts : Accepts calls (cs.flatMap Command.message).length) :
    sendAll outside (cs.map Command.send) calls = some (cs.flatMap Command.message) := by
  induction cs generalizing calls with
  | nil => rfl
  | cons c cs ih =>
      have hlen : ((c.message.length : ℤ) - 0).toNat = c.message.length := by simp
      have hfirst : Accepts calls
          (((c.message.length : ℤ) - 0).toNat + (cs.flatMap Command.message).length) := by
        rw [hlen]
        simpa using haccepts
      obtain ⟨rest, hrun, hrest⟩ := sendLoop_accepted (memory outside c.message) hfirst
      rw [hlen, slice_memory] at hrun
      simp [sendAll, Send.run, Command.send, hrun, ih hrest]

lemma length_repliesTo {r : ServerRequest} (flushedUpto : Option UInt64) (past : List Command)
    (hr : r ≠ .syncReplayProcess) :
    (repliesTo h past (r.commands flushedUpto)).length = r.replySize := by
  have hpage (content : BlockImage) : content.bytes.length = blcksz := content.length_bytes
  cases r <;>
    simp_all [ServerRequest.commands, repliesTo, replyTo, intBytes, ServerRequest.replySize]

lemma messageBytes_eq {ex : Exchange} (hs : ex.request.Sendable) :
    ex.messageBytes = (ex.commands.flatMap Command.message).length := by
  rw [Exchange.messageBytes, ServerRequest.sends_eq hs, List.length_flatMap]
  simp [Exchange.commands, Command.send, Function.comp_def]

lemma length_le_messages (cs : List Command) : cs.length ≤ (cs.flatMap Command.message).length := by
  induction cs with
  | nil => simp
  | cons c cs ih =>
      simp only [List.length_cons, List.flatMap_cons, List.length_append, Command.message]
      omega

/-- A request that can be sent is decoded and answered exactly. -/
lemma exchange_exact (h : Handlers) (outside : ℤ → UInt8) {ex : Exchange} (past : List Command)
    (hs : ex.request.Sendable) (hrel : ex.Reliable) :
    ∃ result, exchange h outside past Link.idle ex = some result ∧ result.Exact ex := by
  have hbytes := messageBytes_eq hs
  have hsync : ex.request ≠ .syncReplayProcess := by
    intro heq
    rw [heq] at hs
    exact hs
  have hsend : sendAll outside (ex.request.sends ex.flushedUpto) ex.writes
      = some (ex.commands.flatMap Command.message) := by
    rw [ServerRequest.sends_eq hs]
    exact sendAll_commands (hbytes ▸ hrel.writes)
  obtain ⟨rd', hserve, hrd'⟩ : ∃ rd',
      serveCommands h ((ex.commands.flatMap Command.message).length + 1) past
          ⟨[], ex.commands.flatMap Command.message⟩ ex.workerReads
        = some ⟨ex.commands.map fun c => (c, []), repliesTo h past ex.commands, rd'⟩ ∧
      rd'.unread = [] :=
    serveCommands_messages past ((ServerRequest.sendable_iff_fits ex.flushedUpto hsync).mp hs)
      (Nat.lt_succ_of_le (length_le_messages _)) rfl (hbytes ▸ hrel.workerReads)
  have hgot : receive ex.request.replySize (repliesTo h past ex.commands) ex.serverReads
      = some (repliesTo h past ex.commands, []) := by
    have hsize : (repliesTo h past ex.commands).length = ex.request.replySize :=
      length_repliesTo ex.flushedUpto past hsync
    have hdel : Delivers ex.serverReads (repliesTo h past ex.commands ++ []).length := by
      rw [List.append_nil, hsize]
      exact hrel.serverReads
    have hread := receive_spec hdel
    rwa [hsize, List.append_nil] at hread
  refine ⟨⟨ex.commands.map fun c => (c, []), repliesTo h past ex.commands,
    repliesTo h past ex.commands, ⟨rd', []⟩⟩, ?_, rfl, rfl, ?_⟩
  · simp only [exchange, hsend, Link.idle, PipeReader.unread, Option.bind_eq_bind, Option.bind_some,
      List.nil_append, hserve, hgot]
    rfl
  · obtain ⟨stdin, pipe⟩ := rd'
    obtain ⟨rfl, rfl⟩ : stdin = [] ∧ pipe = [] := by simpa [PipeReader.unread] using hrd'
    rfl

/-! ## Whole sessions -/

/-- The requests of a session that can be sent are decoded and answered exactly. -/
lemma session_exact {exs : List Exchange} (past : List Command)
    (hs : ∀ ex ∈ exs, ex.request.Sendable) (hrel : ∀ ex ∈ exs, ex.Reliable) :
    ∃ results, session h outside past Link.idle exs = some results ∧
      List.Forall₂ ExchangeResult.Exact exs results := by
  induction exs generalizing past with
  | nil => exact ⟨[], rfl, .nil⟩
  | cons ex exs ih =>
      obtain ⟨result, hrun, hexact⟩ := exchange_exact h outside past
        (hs ex List.mem_cons_self) (hrel ex List.mem_cons_self)
      obtain ⟨results, hlater, hall⟩ := ih (past ++ result.decoded.map Prod.fst)
        (fun e he => hs e (List.mem_cons_of_mem _ he))
        fun e he => hrel e (List.mem_cons_of_mem _ he)
      refine ⟨result :: results, ?_, .cons hexact hall⟩
      simp [session, hrun, hexact.2.2, hlater]

/-- The requests of a session that are decoded exactly can be sent. -/
lemma sendable_of_session {exs : List Exchange} {past : List Command} {link : Link}
    {results : List ExchangeResult} (hrun : session h outside past link exs = some results)
    (hexact : List.Forall₂ ExchangeResult.Exact exs results) :
    ∀ ex ∈ exs, ex.request.Sendable := by
  induction exs generalizing past link results with
  | nil => simp
  | cons ex exs ih =>
      simp only [session, Option.bind_eq_bind, Option.bind_eq_some_iff] at hrun
      obtain ⟨result, hfirst, later, hlater, heq⟩ := hrun
      cases heq
      obtain ⟨hone, hall⟩ := List.forall₂_cons.mp hexact
      rintro e (_ | ⟨_, he⟩)
      · exact sendable_of_exact hfirst hone
      · exact ih hlater hall e he

/-- **Requests and replies pass the pipes exactly** when, and only when, each request can be sent:
it is no synchronisation, its fork number fits the byte that carries it, and its message is shorter
than the receiver's limit.  This is for every list of requests and every way in which the pipes cut
up the bytes on either side. -/
theorem roundTrip_iff (h : Handlers) (outside : ℤ → UInt8) (exs : List Exchange)
    (hrel : ∀ ex ∈ exs, ex.Reliable) :
    RoundTrip h outside exs ↔ ∀ ex ∈ exs, ex.request.Sendable := by
  constructor
  · rintro ⟨results, hrun, hexact⟩
    exact sendable_of_session hrun hexact
  · intro hs
    exact session_exact [] hs hrel

section SampleSession

set_option maxRecDepth 8000

/-- A worker whose relations have three blocks and whose pages are empty. -/
def sampleHandlers : Handlers where
  relSize _ _ := 3
  page _ _ := ⟨List.replicate blcksz 0, List.length_replicate⟩

/-- A request for the size of a relation.  The message is read in parts of seven bytes and the reply
byte by byte, with reads that find nothing in between. -/
def sizeExchange : Exchange where
  request := .syncGetRelSize sampleFork
  flushedUpto := none
  writes := List.replicate 18 (.upTo 4)
  workerReads := .again :: List.replicate 18 (.upTo 6)
  serverReads := [.again, .upTo 0, .again, .upTo 0, .upTo 0, .upTo 0]

/-- A session of two requests for a size. -/
theorem roundTrip_sizes :
    (∀ ex ∈ [sizeExchange, sizeExchange], ex.Reliable) ∧
    RoundTrip sampleHandlers (fun _ => 0) [sizeExchange, sizeExchange] := by
  have hrel : ∀ ex ∈ [sizeExchange, sizeExchange], ex.Reliable := by
    intro ex hex
    obtain rfl : ex = sizeExchange := by simpa using hex
    exact ⟨by decide, by decide, by decide⟩
  refine ⟨hrel, (roundTrip_iff sampleHandlers (fun _ => 0) _ hrel).mpr ?_⟩
  intro ex hex
  obtain rfl : ex = sizeExchange := by simpa using hex
  exact (by decide : ByteFork 0)

/-- A synchronisation is never sent: its loop adds `-1` to its position for ever.  And a fork number
that is no byte is decoded as another: for `-1` the worker looks up fork `255`. -/
theorem sync_not_sent :
    session sampleHandlers (fun _ => 0) [] Link.idle
      [⟨.syncReplayProcess, none, List.replicate 26 (.upTo 0), List.replicate 26 (.upTo 0),
        [.upTo 1, .upTo 0]⟩] = none ∧
    (session sampleHandlers (fun _ => 0) [] Link.idle
      [{ sizeExchange with request := .syncGetRelSize ⟨1, 1, 1, -1⟩ }]).map
        (fun results => results.map ExchangeResult.decoded)
      = some [[(.getRelSize ⟨1, 1, 1, 255⟩, [])]] := by
  decide

end SampleSession

end GroundDB
