import AegisRuntime.EventStreams
import AegisRuntime.ToolCallTexts
import AegisRuntime.TranscriptReplays

/-!
# Chat over the gateway

The handlers that pass a prompt to the inference engine and answer with what it says,
whole or as a stream, and record the turn. A client that reads the answer by the rules
of its format gets the text of the engine, the same from both forms, and the turns that
the database lists are what the clients were told.
-/

namespace AegisRuntime.ChatHandlers

open TextScanning JsonValues JsonTexts SerdeRecords JsonLines EventStreams
open ToolCallTexts (textMember)
open TranscriptReplays (Conditions Database)

/-- The chunks of a stream, each of them bytes of text or an error. -/
abbrev ChatStream : Type := List (Except String (List Char))

/-- An inference engine, as far as chat asks it; temperatures are values of any type. -/
structure InferenceEngine (τ : Type) where
  /-- The model it serves. -/
  modelId : String
  /-- Answers a prompt behind a system prompt. -/
  generateWithTokens : String → Option String → Option τ → Option UInt32 → Except String String
  /-- Answers a conversation. -/
  generateChat : List JsonValue → Option τ → Option UInt32 → Except String String
  /-- Answers a conversation as a stream. -/
  streamChat : List JsonValue → Option τ → Option UInt32 → Except String ChatStream

/-- `InferenceEngine::generate`. -/
def InferenceEngine.generate {τ : Type} (engine : InferenceEngine τ) (prompt : String)
    (systemPrompt : Option String) (temperature : Option τ) : Except String String :=
  engine.generateWithTokens prompt systemPrompt temperature (some 1024)

/-- A message of the inference protocol. -/
structure InferenceMessage where
  /-- Who speaks. -/
  role : String
  /-- What is said. -/
  content : String

/-- A request of the inference protocol. -/
structure InferenceRequest (τ : Type) where
  /-- A fresh identifier. -/
  requestId : String
  /-- The model. -/
  model : String
  /-- The conversation. -/
  messages : List InferenceMessage
  /-- The limit. -/
  maxTokens : UInt32
  /-- The temperature. -/
  temperature : τ
  /-- Texts that end the answer. -/
  stopSequences : List String

/-- `ProtocolInferenceBackend`, with the identifiers that it draws. -/
structure ProtocolBackend (τ : Type) where
  /-- What the service answers. -/
  infer : InferenceRequest τ → Except String String
  /-- The model. -/
  modelId : String
  /-- Identifier of the request. -/
  requestId : String
  /-- Identifier of the chunk. -/
  chunkId : String
  /-- The temperature `0.0`. -/
  cold : τ

/-- A chunk of a streamed completion. -/
def completionChunk (id content : String) (finishReason : JsonValue) : JsonValue :=
  .object [("choices",.array [.object [("delta",.object [("content",.string content)]),
    ("finish_reason",finishReason),("index",integer 0)]]),("id",.string id),
    ("object",.string "chat.completion.chunk")]

/-- The mark that ends a streamed completion. -/
def DONE : List Char := ['[','D','O','N','E',']']

/-- The text of a stream with one chunk. -/
def chunkStream (chunk : JsonValue) : List Char := dataEvent chunk.compact.toList++dataEvent DONE

namespace ProtocolBackend

variable {τ : Type} (backend : ProtocolBackend τ)

/-- Asks the service. -/
def ask (messages : List InferenceMessage) (temperature : Option τ) (maxTokens : Option UInt32) :
    Except String String :=
  (backend.infer ⟨backend.requestId,backend.modelId,messages,maxTokens.getD 256,
    temperature.getD backend.cold,[]⟩).mapError fun e => "Protocol inference error: "++e

/-- A message as the protocol has it: its role and its text, nothing else. -/
def inferenceMessage (msg : JsonValue) : InferenceMessage :=
  ⟨textMember "role" "user" msg,textMember "content" "" msg⟩

/-- Answers a prompt. -/
def generateWithTokens (prompt : String) (systemPrompt : Option String) (temperature : Option τ)
    (maxTokens : Option UInt32) : Except String String :=
  backend.ask ((systemPrompt.map fun sys => ⟨"system",sys⟩).toList++[⟨"user",prompt⟩]) temperature
    maxTokens

/-- Answers a conversation. -/
def generateChat (messages : List JsonValue) (temperature : Option τ) (maxTokens : Option UInt32) :
    Except String String :=
  backend.ask (messages.map inferenceMessage) temperature maxTokens

/-- Answers a conversation with one chunk. -/
def streamChat (messages : List JsonValue) (temperature : Option τ) (maxTokens : Option UInt32) :
    Except String ChatStream :=
  (backend.generateChat messages temperature maxTokens).map fun content =>
    [.ok (chunkStream (completionChunk backend.chunkId content .null))]

/-- The backend as an engine. -/
def engine : InferenceEngine τ :=
  ⟨backend.modelId,backend.generateWithTokens,backend.generateChat,backend.streamChat⟩

end ProtocolBackend

/-- What the gateway answers: a status with a body, or the text frame of a socket. -/
inductive Reply where
  | response (status : ℕ) (contentType : String) (body : ChatStream)
  | frame (text : List Char)

/-- A JSON body. -/
def json (status : ℕ) (v : JsonValue) : Reply :=
  .response status "application/json" [.ok v.compact.toList]

/-- A plain text body. -/
def plain (status : ℕ) (text : String) : Reply :=
  .response status "text/plain; charset=utf-8" [.ok text.toList]

/-- A turn to be recorded. -/
structure Turn where
  /-- Who asked. -/
  role : String
  /-- The prompt. -/
  prompt : String
  /-- The response. -/
  response : String
  /-- How long it took. -/
  durationMs : UInt64
  deriving DecidableEq,Repr

/-- What a handler meets. -/
structure Moment where
  /-- Milliseconds that the engine took. -/
  durationMs : ℕ
  /-- Seconds since the Unix epoch. -/
  created : ℤ
  /-- The time as text. -/
  timestamp : String
  /-- A fresh identifier. -/
  freshId : String

/-- The body of `/api/v1/chat`. -/
structure ChatRequest (τ : Type) where
  /-- The prompt. -/
  prompt : String
  /-- The system prompt. -/
  system : Option String
  /-- The temperature. -/
  temperature : Option τ

/-- A message of a chat completion. -/
structure OpenAiMessage where
  /-- Who speaks. -/
  role : String
  /-- What is said. -/
  content : String

/-- The body of `/v1/chat/completions`. -/
structure OpenAiChatRequest (τ : Type) where
  /-- The model asked for. -/
  model : Option String
  /-- The conversation. -/
  messages : List OpenAiMessage
  /-- The temperature. -/
  temperature : Option τ
  /-- The limit. -/
  maxTokens : Option UInt32
  /-- Whether to stream. -/
  stream : Option Bool

/-- The body of the Discord relay. -/
structure DiscordRelayRequest where
  /-- The channel. -/
  channelId : String
  /-- Who wrote. -/
  author : String
  /-- What was written. -/
  content : String

variable {τ : Type} (engine : InferenceEngine τ) (met : Moment)

/-- A `ChatResponse`, its members in the order of the declaration. -/
def chatResponse (response model : String) (durationMs : ℕ) : List (String×JsonValue) :=
  [("role",.string "assistant"),("content",.string response),("model",.string model),
    ("duration_ms",integer durationMs)]

/-- `chat_handler`. -/
def chatHandler (payload : ChatRequest τ) : Reply×Option Turn :=
  match engine.generate payload.prompt payload.system payload.temperature with
  | .error e => (plain 500 e,none)
  | .ok response =>
    (json 200 (.object (chatResponse response engine.modelId met.durationMs)),
      some ⟨"user",payload.prompt,response,UInt64.ofNat met.durationMs⟩)

/-- The error body of a chat completion. -/
def completionError (message param code : String) : JsonValue :=
  .object [("error",.object [("code",.string code),("message",.string message),
    ("param",.string param),("type",.string "invalid_request_error")])]

/-- Whether a model is served. -/
def servesModel (requested : String) : Bool :=
  requested==engine.modelId || requested=="atlas-lightning-omni" || requested=="aegis-default" ||
    requested=="default"

/-- A message as the engine gets it. -/
def OpenAiMessage.toJson (m : OpenAiMessage) : JsonValue :=
  .object [("content",.string m.content),("role",.string m.role)]

/-- What the user said last. -/
def lastUserPrompt (messages : List OpenAiMessage) : String :=
  ((messages.reverse.find? fun m => m.role=="user").map OpenAiMessage.content).getD "hello"

/-- How many words a text has. -/
def wordCount (text : String) : ℕ := (words isWhitespace text.toList).length

/-- The body of a completion that is not streamed. -/
def completionBody (prompt response : String) : JsonValue :=
  .object [("choices",.array [.object [("finish_reason",.string "stop"),("index",integer 0),
      ("message",.object [("content",.string response),("role",.string "assistant")])]]),
    ("created",integer met.created),("id",.string ("chatcmpl-"++met.freshId)),
    ("model",.string engine.modelId),("object",.string "chat.completion"),
    ("usage",.object [("completion_tokens",integer (wordCount response)),
      ("prompt_tokens",integer (wordCount prompt)),
      ("total_tokens",integer (wordCount prompt+wordCount response : ℕ))])]

/-- The error of a request without messages. -/
def noMessages : JsonValue :=
  completionError "Missing required parameter: 'messages' must contain at least one message."
    "messages" "missing_required_parameter"

/-- The error of a request for a model that is not served. -/
def unknownModel (requested : String) : JsonValue :=
  completionError ("The model '"++requested++"' does not exist or is not supported.") "model"
    "model_not_found"

/-- `openai_completions_handler` behind its checks. -/
def completeChat (payload : OpenAiChatRequest τ) : Reply×Option Turn :=
  let messages := payload.messages.map OpenAiMessage.toJson
  let prompt := lastUserPrompt payload.messages
  if payload.stream=some true then
    match engine.streamChat messages payload.temperature payload.maxTokens with
    | .ok stream => (.response 200 "text/event-stream" stream,none)
    | .error _ =>
      (.response 200 "text/event-stream" [.ok (chunkStream (completionChunk
        ("chatcmpl-"++met.freshId) ("[Fallback]: "++prompt) (.string "stop")))],none)
  else
    match engine.generateChat messages payload.temperature payload.maxTokens with
    | .ok response => (json 200 (completionBody engine met prompt response),
        some ⟨"user",prompt,response,UInt64.ofNat met.durationMs⟩)
    | .error e => (plain 500 e,none)

/-- `openai_completions_handler`. -/
def openaiCompletionsHandler (payload : OpenAiChatRequest τ) : Reply×Option Turn :=
  if payload.messages.isEmpty then (json 400 noMessages,none)
  else
    match payload.model.filter fun requested => !servesModel engine requested with
    | some requested => (json 404 (unknownModel requested),none)
    | none => completeChat engine met payload

/-- `discord_relay_handler`. -/
def discordRelayHandler (payload : DiscordRelayRequest) : Reply×Option Turn :=
  let prompt := "[Discord from "++payload.author++" in "++payload.channelId++"]: "++payload.content
  let reply := match engine.generate prompt none none with
    | .ok reply => reply
    | .error e => "Error: "++e
  (json 200 (.object [("reply",.string reply),("status",.string "relayed"),
    ("timestamp",.string met.timestamp)]),some ⟨payload.author,payload.content,reply,10⟩)

/-- The branch of `handle_socket` for messages of no other type. -/
def socketChat (parsed : JsonValue) (text : String) : Reply×Option Turn :=
  let prompt := ((parsed.get "content").bind JsonValue.asStr).getD text
  match engine.generate prompt none none with
  | .ok reply =>
    (.frame (JsonValue.object [("content",.string reply),("duration_ms",integer met.durationMs),
        ("timestamp",.string met.timestamp),("type",.string "response")]).compact.toList,
      some ⟨"ws_user",prompt,reply,UInt64.ofNat met.durationMs⟩)
  | .error e =>
    (.frame (JsonValue.object [("message",.string e),("type",.string "error")]).compact.toList,none)

/-- What asks for chat. -/
inductive Exchange (τ : Type) where
  /-- `POST /api/v1/chat`. -/
  | chat (payload : ChatRequest τ)
  /-- `POST /v1/chat/completions`. -/
  | completions (payload : OpenAiChatRequest τ)
  /-- `POST /api/v1/discord/relay`. -/
  | discord (payload : DiscordRelayRequest)
  /-- A text frame of a socket, with the value it was parsed as. -/
  | socket (parsed : JsonValue) (text : String)

/-- Serves it: the reply, and the turn that is recorded. -/
def serve : Exchange τ → Reply×Option Turn
  | .chat payload => chatHandler engine met payload
  | .completions payload => openaiCompletionsHandler engine met payload
  | .discord payload => discordRelayHandler engine met payload
  | .socket parsed text => socketChat engine met parsed text

/-- Whether it asks for a stream. -/
def Exchange.streams : Exchange τ → Bool
  | .completions payload => payload.stream==some true
  | _ => false

/-- The text of a body, as far as it came. -/
def bodyText : ChatStream → List Char
  | [] => []
  | .ok cs::rest => cs++bodyText rest
  | .error _::_ => []

/-- The value of a JSON body. -/
def readBody (body : ChatStream) : Option JsonValue := readJson (String.ofList (bodyText body))

/-- The text of the first choice, below a name. -/
def choiceText (part : String) (v : JsonValue) : Option String := do
  let choices ← (v.get "choices").bind JsonValue.asArray
  let choice ← choices.head?
  let content ← choice.get part
  field "content" JsonValue.asStr content

/-- The text of the chunks before the mark. -/
def chunksText : List StreamEvent → Option String
  | [] => some ""
  | e::es =>
    if e.data=DONE then some ""
    else do
      let v ← readJson (String.ofList e.data)
      let text ← choiceText "delta" v
      let rest ← chunksText es
      return text++rest

/-- The text that a client finds in the reply to what it asked. -/
def told : Exchange τ → Reply → Option String
  | .chat _, .response status _ body =>
    if status=200 then (readBody body).bind (field "content" JsonValue.asStr) else none
  | .completions _, .response status contentType body =>
    if status=200 then
      if contentType="text/event-stream" then chunksText (readStream (bodyText body))
      else (readBody body).bind (choiceText "message")
    else none
  | .discord _, .response status _ body =>
    if status=200 then (readBody body).bind (field "reply" JsonValue.asStr) else none
  | .socket _ _, .frame text => do
    let v ← readJson (String.ofList text)
    let frameType ← field "type" JsonValue.asStr v
    if frameType="response" then field "content" JsonValue.asStr v else none
  | _, _ => none

variable {v : JsonValue}

/-- A tidy value is read as it is printed. -/
theorem readJson_tidy (h : Tidy v) : readJson (String.ofList v.compact.toList)=some v := by
  rw [String.ofList_toList]
  exact (readJson_iff _ _).mpr h.text

theorem bodyText_single (cs : List Char) : bodyText [.ok cs]=cs := List.append_nil cs

theorem readBody_tidy (h : Tidy v) : readBody [.ok v.compact.toList]=some v := by
  rw [readBody,bodyText_single]
  exact readJson_tidy h

/-- A tidy value below each name, the names in order. -/
theorem tidy_object {ms : List (String×JsonValue)} (names : List String)
    (hnames : ms.map Prod.fst=names) (hordered : names.Pairwise (· < ·)) (h : ∀ m∈ms, Tidy m.2) :
    Tidy (.object ms) :=
  .object (List.pairwise_map.mp (hnames ▸ hordered)) h

theorem tidy_completionChunk (id content : String) {finishReason : JsonValue}
    (hreason : Tidy finishReason) : Tidy (completionChunk id content finishReason) := by
  have hdelta : Tidy (.object [("content",.string content)]) :=
    tidy_object ["content"] rfl (by decide) (by simpa using Tidy.string)
  have hchoice : Tidy (.object [("delta",.object [("content",.string content)]),
      ("finish_reason",finishReason),("index",integer 0)]) :=
    tidy_object ["delta","finish_reason","index"] rfl (by decide)
      (by simpa using ⟨hdelta,hreason,.integer⟩)
  exact tidy_object ["choices","id","object"] rfl (by decide)
    (by simpa using ⟨.array (by simpa using hchoice),.string,.string⟩)

/-- An object is not the mark. -/
theorem object_ne_done (ms : List (String×JsonValue)) :
    (JsonValue.object ms).compact.toList≠DONE := by
  intro heq
  have hhead : (JsonValue.object ms).compact.toList.head?=some '\x7b' := by
    rw [JsonValue.compact,String.toList_append,String.toList_append]
    rfl
  rw [heq] at hhead
  exact absurd hhead (by decide)

/-- Two printable texts that are sent as data. -/
theorem readStream_pair {cs ds : List Char} (hc : Printable cs) (hd : Printable ds) :
    readStream (dataEvent cs++dataEvent ds)=[message cs,message ds] := by
  have hlines : ∀ text∈[cs,ds], '\n'∉text ∧ '\r'∉text := List.forall_mem_cons.mpr
    ⟨⟨hc.newline,hc.carriageReturn⟩,List.forall_mem_singleton.mpr ⟨hd.newline,hd.carriageReturn⟩⟩
  have hread := readStream_data hlines
  rwa [List.flatMap_cons,List.flatMap_singleton] at hread

/-- The value of one chunk and the mark. -/
theorem chunksText_pair {cs : List Char} {text : String} (hne : cs≠DONE)
    (hread : readJson (String.ofList cs)=some v) (htext : choiceText "delta" v=some text) :
    chunksText [message cs,message DONE]=some text := by
  have hlast : chunksText [message DONE]=some "" := by
    rw [chunksText]
    exact if_pos rfl
  have hdata : (message cs).data=cs := rfl
  rw [chunksText,hdata,if_neg hne,hread,hlast]
  simp [htext]

/-- A stream of one chunk is read as the text of the chunk. -/
theorem chunksText_chunkStream (id content : String) {finishReason : JsonValue}
    (hreason : Tidy finishReason) :
    chunksText (readStream (chunkStream (completionChunk id content finishReason)))=
      some content := by
  have htidy := tidy_completionChunk id content hreason
  have hdone : Printable DONE := by decide
  rw [chunkStream,readStream_pair htidy.printable hdone]
  exact chunksText_pair (object_ne_done _) (readJson_tidy htidy) rfl

/-- An object of tidy values is read with its members in order. -/
theorem readBody_object {ms : List (String×JsonValue)} (h : ∀ m∈ms, Tidy m.2) :
    readBody [.ok (JsonValue.object ms).compact.toList]=some (.object (collect ms)) := by
  rw [readBody,bodyText_single,String.ofList_toList]
  exact (readJson_iff _ _).mpr
    (jsonText_object (List.forall₂_same.mpr fun m hm => ⟨rfl,(h m hm).text⟩))

/-- What is recorded was told, and what was told but not as a stream is recorded. -/
structure TellsTurn (x : Exchange τ) (served : Reply×Option Turn) : Prop where
  /-- A recorded turn has the text that the client finds. -/
  recorded : ∀ turn, served.2=some turn → told x served.1=some turn.response
  /-- A client that finds a text without a recorded turn asked for a stream. -/
  unrecorded : served.2=none → x.streams=false → told x served.1=none

variable {x : Exchange τ}

/-- A reply with the text of the turn. -/
theorem tellsTurn_some {reply : Reply} {turn : Turn} (h : told x reply=some turn.response) :
    TellsTurn x (reply,some turn) := by
  refine ⟨fun turn' heq => ?_,fun heq => ?_⟩
  · cases heq
    exact h
  · cases heq

/-- A reply without a text. -/
theorem tellsTurn_none {reply : Reply} (h : x.streams=false → told x reply=none) :
    TellsTurn x (reply,none) := by
  refine ⟨fun turn heq => ?_,fun _ hstreams => h hstreams⟩
  cases heq

theorem chatHandler_tells (payload : ChatRequest τ) :
    TellsTurn (.chat payload) (chatHandler engine met payload) := by
  unfold chatHandler
  split
  · exact tellsTurn_none fun _ => rfl
  · next response _ =>
    refine tellsTurn_some ?_
    have hbody : ∀ m∈chatResponse response engine.modelId met.durationMs, Tidy m.2 := by
      simpa [chatResponse] using ⟨.string,.string,.string,.integer⟩
    have hnames : ((chatResponse response engine.modelId met.durationMs).map Prod.fst).Nodup := by
      change (["role","content","model","duration_ms"] : List String).Nodup
      decide
    rw [json,told,if_pos rfl,readBody_object hbody,Option.bind_some,field_collect hnames]
    rfl

theorem discordRelayHandler_tells (payload : DiscordRelayRequest) :
    TellsTurn (τ:=τ) (.discord payload) (discordRelayHandler engine met payload) := by
  refine tellsTurn_some ?_
  rw [json,told,if_pos rfl,readBody_tidy (tidy_object ["reply","status","timestamp"] rfl
    (by decide) (by simpa using ⟨.string,.string,.string⟩))]
  rfl

theorem socketChat_tells (parsed : JsonValue) (text : String) :
    TellsTurn (τ:=τ) (.socket parsed text) (socketChat engine met parsed text) := by
  unfold socketChat
  simp only
  split
  · refine tellsTurn_some ?_
    rw [told,readJson_tidy (tidy_object ["content","duration_ms","timestamp","type"] rfl
      (by decide) (by simpa using ⟨.string,.integer,.string,.string⟩))]
    rfl
  · refine tellsTurn_none fun _ => ?_
    rw [told,readJson_tidy (tidy_object ["message","type"] rfl (by decide)
      (by simpa using ⟨.string,.string⟩))]
    rfl

theorem tidy_completionBody (prompt response : String) :
    Tidy (completionBody engine met prompt response) := by
  have hmessage : Tidy (.object [("content",.string response),("role",.string "assistant")]) :=
    tidy_object ["content","role"] rfl (by decide) (by simpa using ⟨.string,.string⟩)
  have hchoice : Tidy (.object [("finish_reason",.string "stop"),("index",integer 0),
      ("message",.object [("content",.string response),("role",.string "assistant")])]) :=
    tidy_object ["finish_reason","index","message"] rfl (by decide)
      (by simpa using ⟨.string,.integer,hmessage⟩)
  have husage : Tidy (.object [("completion_tokens",integer (wordCount response)),
      ("prompt_tokens",integer (wordCount prompt)),
      ("total_tokens",integer (wordCount prompt+wordCount response : ℕ))]) :=
    tidy_object ["completion_tokens","prompt_tokens","total_tokens"] rfl (by decide)
      (by simpa using ⟨.integer,.integer,.integer⟩)
  exact tidy_object ["choices","created","id","model","object","usage"] rfl (by decide)
    (by simpa using ⟨.array (by simpa using hchoice),.integer,.string,.string,.string,husage⟩)

/-- A completion that is not streamed is read as the response. -/
theorem told_completionBody (payload : OpenAiChatRequest τ) (prompt response : String) :
    told (.completions payload) (json 200 (completionBody engine met prompt response))=
      some response := by
  rw [json,told,if_pos rfl,if_neg (by decide),readBody_tidy (tidy_completionBody engine met _ _)]
  rfl

theorem completeChat_tells (payload : OpenAiChatRequest τ) :
    TellsTurn (.completions payload) (completeChat engine met payload) := by
  unfold completeChat
  simp only
  split
  · next hstream =>
    have hstreams : (Exchange.completions payload).streams≠false := by
      rw [Exchange.streams,hstream]
      decide
    split
    · exact tellsTurn_none fun h => absurd h hstreams
    · exact tellsTurn_none fun h => absurd h hstreams
  · split
    · exact tellsTurn_some (told_completionBody engine met payload _ _)
    · exact tellsTurn_none fun _ => rfl

theorem openaiCompletionsHandler_tells (payload : OpenAiChatRequest τ) :
    TellsTurn (.completions payload) (openaiCompletionsHandler engine met payload) := by
  unfold openaiCompletionsHandler
  split
  · exact tellsTurn_none fun _ => rfl
  · split
    · exact tellsTurn_none fun _ => rfl
    · exact completeChat_tells engine met payload

/-- Every exchange tells what is recorded. -/
theorem serve_tells (x : Exchange τ) : TellsTurn x (serve engine met x) := by
  cases x with
  | chat payload => exact chatHandler_tells engine met payload
  | completions payload => exact openaiCompletionsHandler_tells engine met payload
  | discord payload => exact discordRelayHandler_tells engine met payload
  | socket parsed text => exact socketChat_tells engine met parsed text

/-- An exchange as it was served. -/
structure Served (τ : Type) where
  /-- The engine, as it answers then. -/
  engine : InferenceEngine τ
  /-- What the handler meets. -/
  met : Moment
  /-- What the statement meets. -/
  conditions : Conditions
  /-- What was asked. -/
  exchange : Exchange τ

variable {s : Served τ} {db : Database}

/-- The turn of an exchange. -/
def Served.turn (s : Served τ) : Option Turn := (serve s.engine s.met s.exchange).2

/-- The text that its client found. -/
def Served.told (s : Served τ) : Option String :=
  ChatHandlers.told s.exchange (serve s.engine s.met s.exchange).1

/-- The turn as the database took it. -/
def Served.kept (s : Served τ) : Option Turn := if s.conditions.refused then none else s.turn

/-- The database after an exchange; a refusal is ignored. -/
def Served.record (db : Database) (s : Served τ) : Database :=
  match s.turn with
  | none => db
  | some turn =>
    (db.recordTurn s.conditions turn.role turn.prompt turn.response turn.durationMs).getD db

/-- A listed turn, without its number, its session and its time. -/
def listed (record : TranscriptReplays.TurnRecord) : Turn :=
  ⟨record.role,record.prompt,record.response,record.durationMs⟩

/-- The turns after an exchange. -/
theorem turns_record (db : Database) (s : Served τ) :
    (s.record db).turns.map (fun row => listed row.record)=
      db.turns.map (fun row => listed row.record)++s.kept.toList := by
  unfold Served.record Served.kept
  cases hturn : s.turn with
  | none =>
    simp only
    split <;> simp
  | some turn =>
    cases hrefused : s.conditions.refused with
    | true =>
      rw [if_pos rfl]
      simp [Database.recordTurn,hrefused]
    | false =>
      simp [Database.recordTurn,Database.recordTranscript,hrefused,listed,
        TranscriptReplays.TurnRow.record]

/-- The turns after exchanges. -/
theorem turns_recorded (db : Database) (served : List (Served τ)) :
    (served.foldl Served.record db).turns.map (fun row => listed row.record)=
      db.turns.map (fun row => listed row.record)++served.filterMap Served.kept := by
  induction served generalizing db with
  | nil => exact (List.append_nil _).symm
  | cons s served ih =>
    rw [List.foldl_cons,ih,turns_record,List.append_assoc]
    cases hkept : s.kept with
    | none => rw [List.filterMap_cons_none hkept]; rfl
    | some turn => rw [List.filterMap_cons_some hkept]; rfl

/-- What the database lists is what clients were told. -/
structure ListsTold (served : List (Served τ)) (limit : UInt64) : Prop where
  /-- The last turns that were kept, the newest first. -/
  kept : (((served.foldl Served.record Database.empty).listRecentTurns limit).map listed)=
    RowPages.limited (SignedColumns.asI64 limit) 0 (served.filterMap Served.kept).reverse
  /-- Each was told to a client that had asked. -/
  told : ∀ turn∈(served.foldl Served.record Database.empty).listRecentTurns limit,
    ∃ s∈served, s.kept=some (listed turn) ∧ s.told=some turn.response
  /-- What a client was told is kept, unless it came as a stream or the database refused. -/
  missing : ∀ s∈served, s.kept=none → s.told=none ∨ s.exchange.streams=true ∨
    s.conditions.refused=true

/-- Whatever is asked of the engines and whatever they answer, the turns that the database
lists are those that it took of the exchanges, and what they hold is what clients were
told: each by a reply that reads as the response, and none left out but streams. -/
theorem turns_told (served : List (Served τ)) (limit : UInt64) : ListsTold served limit := by
  have hkept : (((served.foldl Served.record Database.empty).listRecentTurns limit).map listed)=
      RowPages.limited (SignedColumns.asI64 limit) 0 (served.filterMap Served.kept).reverse := by
    have hturns := turns_recorded Database.empty served
    have hempty : Database.empty.turns=[] := rfl
    rw [hempty,List.map_nil,List.nil_append] at hturns
    rw [Database.listRecentTurns,RowPages.limited_map,RowPages.limited_map,←hturns,
      ←List.map_reverse,List.map_map]
    rfl
  refine ⟨hkept,fun turn hturn => ?_,fun s _ hnone => ?_⟩
  · have hmem : listed turn∈served.filterMap Served.kept := by
      have hlisted := List.mem_map_of_mem (f:=listed) hturn
      rw [hkept] at hlisted
      exact List.mem_reverse.mp ((RowPages.limited_sublist _ _ _).subset hlisted)
    obtain ⟨s,hs,hsome⟩ := List.mem_filterMap.mp hmem
    refine ⟨s,hs,hsome,?_⟩
    have hs' : s.turn=some (listed turn) := by
      unfold Served.kept at hsome
      split at hsome
      · cases hsome
      · exact hsome
    exact (serve_tells s.engine s.met s.exchange).recorded _ hs'
  · unfold Served.kept at hnone
    split at hnone
    · next hrefused => exact .inr (.inr hrefused)
    · cases hstreams : s.exchange.streams with
      | true => exact .inr (.inl rfl)
      | false =>
        exact .inl ((serve_tells s.engine s.met s.exchange).unrecorded hnone hstreams)

/-- A request that is passed to the engine. -/
def Passes (engine : InferenceEngine τ) (payload : OpenAiChatRequest τ) : Prop :=
  payload.messages≠[] ∧ ∀ requested, payload.model=some requested →
    servesModel engine requested=true

/-- A request that passes is completed. -/
theorem openaiCompletionsHandler_passed {payload : OpenAiChatRequest τ}
    (h : Passes engine payload) :
    openaiCompletionsHandler engine met payload=completeChat engine met payload := by
  have hmodel : (payload.model.filter fun requested => !servesModel engine requested)=none := by
    rw [Option.filter_eq_none_iff]
    intro requested hrequested
    rw [h.2 requested hrequested]
    decide
  rw [openaiCompletionsHandler,if_neg (mt List.isEmpty_iff.mp h.1),hmodel]

/-- One that does not pass is answered with an error, whatever the engine would say and in
both forms. -/
theorem openaiCompletionsHandler_refused {payload : OpenAiChatRequest τ}
    (h : ¬Passes engine payload) : ∃ status v, (status=400 ∨ status=404) ∧
      ∀ (other : InferenceEngine τ) (stream : Option Bool), other.modelId=engine.modelId →
        openaiCompletionsHandler other met { payload with stream := stream }=
          (json status v,none) := by
  by_cases hempty : payload.messages=[]
  · refine ⟨400,noMessages,.inl rfl,fun other stream _ => ?_⟩
    rw [openaiCompletionsHandler,if_pos (List.isEmpty_iff.mpr hempty)]
  · obtain ⟨requested,hrequested,hserves⟩ : ∃ requested, payload.model=some requested ∧
        servesModel engine requested=false := by
      by_contra hall
      refine h ⟨hempty,fun requested hrequested => ?_⟩
      by_contra hserves
      exact hall ⟨requested,hrequested,Bool.eq_false_iff.mpr hserves⟩
    refine ⟨404,unknownModel requested,.inr rfl,fun other stream hother => ?_⟩
    have hsame : servesModel other requested=false := by
      rw [servesModel,hother,←servesModel,hserves]
    have hmodel : (payload.model.filter fun requested => !servesModel other requested)=
        some requested := by
      rw [hrequested,Option.filter_some,hsame]
      rfl
    rw [openaiCompletionsHandler,if_neg (mt List.isEmpty_iff.mp hempty),hmodel]

/-- What a client is told of the answer of the service, or of its failure. -/
structure Agrees (backend : ProtocolBackend τ) (met : Moment) (payload : OpenAiChatRequest τ)
    (stream : Option Bool) : Prop where
  /-- An answer is read from both forms. -/
  answered : ∀ text, backend.generateChat (payload.messages.map OpenAiMessage.toJson)
      payload.temperature payload.maxTokens=.ok text →
    told (.completions payload) (openaiCompletionsHandler backend.engine met
      { payload with stream := stream }).1=some text
  /-- After a failure a stream tells the fallback and the plain form nothing. -/
  failed : ∀ e, backend.generateChat (payload.messages.map OpenAiMessage.toJson)
      payload.temperature payload.maxTokens=.error e →
    told (.completions payload) (openaiCompletionsHandler backend.engine met
        { payload with stream := stream }).1=
      if stream=some true then some ("[Fallback]: "++lastUserPrompt payload.messages) else none
  /-- The plain form is then an internal error with the text of the failure, and no turn. -/
  refused : ∀ e, backend.generateChat (payload.messages.map OpenAiMessage.toJson)
      payload.temperature payload.maxTokens=.error e → stream≠some true →
    openaiCompletionsHandler backend.engine met { payload with stream := stream }=
      (plain 500 e,none)

/-- A stream of one chunk is read as its text. -/
theorem told_chunkStream (payload : OpenAiChatRequest τ) (id content : String)
    {finishReason : JsonValue} (hreason : Tidy finishReason) :
    told (.completions payload) (.response 200 "text/event-stream"
      [.ok (chunkStream (completionChunk id content finishReason))])=some content := by
  rw [told,if_pos rfl,if_pos rfl,bodyText_single]
  exact chunksText_chunkStream id content hreason

theorem agrees_of_passes (backend : ProtocolBackend τ) (met : Moment)
    {payload : OpenAiChatRequest τ} (h : Passes backend.engine payload) (stream : Option Bool) :
    Agrees backend met payload stream := by
  have hpassed : Passes backend.engine { payload with stream := stream } := h
  have hstream : ∀ answer, backend.generateChat (payload.messages.map OpenAiMessage.toJson)
      payload.temperature payload.maxTokens=answer →
      backend.engine.streamChat (payload.messages.map OpenAiMessage.toJson) payload.temperature
        payload.maxTokens=answer.map fun content =>
          [.ok (chunkStream (completionChunk backend.chunkId content .null))] := by
    intro answer hanswer
    rw [←hanswer]
    rfl
  refine ⟨fun text htext => ?_,fun e he => ?_,fun e he hplain => ?_⟩
  · rw [openaiCompletionsHandler_passed _ met hpassed,completeChat]
    simp only [hstream _ htext]
    split
    · exact told_chunkStream payload _ _ .null
    · have hplain : backend.engine.generateChat (payload.messages.map OpenAiMessage.toJson)
          payload.temperature payload.maxTokens=.ok text := htext
      simp only [hplain]
      exact told_completionBody _ met payload _ _
  · rw [openaiCompletionsHandler_passed _ met hpassed,completeChat]
    simp only [hstream _ he]
    split
    · exact told_chunkStream payload _ _ .string
    · have hplain : backend.engine.generateChat (payload.messages.map OpenAiMessage.toJson)
          payload.temperature payload.maxTokens=.error e := he
      simp only [hplain]
      rfl
  · have hfails : backend.engine.generateChat (payload.messages.map OpenAiMessage.toJson)
        payload.temperature payload.maxTokens=.error e := he
    rw [openaiCompletionsHandler_passed _ met hpassed,completeChat]
    simp only [if_neg hplain,hfails]

/-- With the protocol backend the two forms of a completion agree: when the service answers,
a client reads the answer whether it asks for a stream or not; when it does not, the plain
form is a 500 with the error and the stream says a fallback. A request that does not pass the checks is
answered with 400 or 404 in both forms, whatever the service would say. -/
theorem completions_agree (backend : ProtocolBackend τ) (met : Moment)
    (payload : OpenAiChatRequest τ) :
    (Passes backend.engine payload → ∀ stream, Agrees backend met payload stream) ∧
      (¬Passes backend.engine payload → ∃ status v, (status=400 ∨ status=404) ∧
        ∀ (other : InferenceEngine τ) (stream : Option Bool), other.modelId=backend.modelId →
          openaiCompletionsHandler other met { payload with stream := stream }=
            (json status v,none)) :=
  ⟨fun h => agrees_of_passes backend met h,openaiCompletionsHandler_refused backend.engine met⟩

end AegisRuntime.ChatHandlers
