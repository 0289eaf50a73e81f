import AegisRuntime.JsonLines

/-!
# Event streams

The text of a `text/event-stream` as a client reads it: lines that end with a line feed,
a carriage return or both, fields with a name before a colon, and an event for each empty
line that data stand before. A text without line breaks that is sent as the data of an
event is read back.
-/

namespace AegisRuntime.EventStreams

open JsonLines

/-- An event that was dispatched. -/
structure StreamEvent where
  /-- Its type. -/
  eventType : String
  /-- Its data. -/
  data : List Char
  deriving DecidableEq,Repr

/-- What was read since the last event. -/
structure Pending where
  /-- The type. -/
  eventType : String := ""
  /-- The lines of data. -/
  data : List (List Char) := []

/-- The text with one character for each end of a line. -/
def unified : List Char → List Char
  | [] => []
  | c::cs =>
    if c = '\r' then
      if cs.head?=some '\n' then unified cs else '\n'::unified cs
    else c::unified cs

/-- The value behind the colon of a field, less one space. -/
def fieldValue (afterColon : List Char) : List Char :=
  match afterColon with
  | ' '::value => value
  | value => value

/-- A line: the event that it dispatches, if it does, and what is pending then. -/
def Pending.line (p : Pending) (text : List Char) : Pending×Option StreamEvent :=
  if text=[] then
    if p.data=[] then ({},none)
    else
      let eventType := if p.eventType="" then "message" else p.eventType
      ({},some ⟨eventType,['\n'].intercalate p.data⟩)
  else
    let name := text.takeWhile (· ≠ ':')
    let value := fieldValue ((text.dropWhile (· ≠ ':')).drop 1)
    if name="data".toList then ({ p with data := p.data++[value] },none)
    else if name="event".toList then ({ p with eventType := String.ofList value },none)
    else (p,none)

/-- The events of lines. -/
def eventsFrom (p : Pending) : List (List Char) → List StreamEvent
  | [] => []
  | text::texts => (p.line text).2.toList++eventsFrom (p.line text).1 texts

/-- The events of a stream. -/
def readStream (cs : List Char) : List StreamEvent := eventsFrom {} (linesOf (unified cs)).1

/-- A text as the data of an event. -/
def dataEvent (text : List Char) : List Char := "data: ".toList++text++['\n','\n']

/-- The event that a client reads. -/
def message (text : List Char) : StreamEvent := ⟨"message",text⟩

variable {cs text : List Char}

theorem unified_of_notMem (h : '\r'∉cs) : unified cs=cs := by
  induction cs with
  | nil => rfl
  | cons c cs ih =>
    obtain ⟨hc,hcs⟩ := not_or.mp (List.mem_cons.not.mp h)
    rw [unified,if_neg (Ne.symm hc),ih hcs]

/-- The line of a text is a line of data. -/
theorem line_data (p : Pending) (text : List Char) :
    p.line ("data: ".toList++text)=({ p with data := p.data++[text] },none) := rfl

/-- A text with its empty line is an event. -/
theorem eventsFrom_data (text : List Char) (more : List (List Char)) :
    eventsFrom {} (("data: ".toList++text)::[]::more)=message text::eventsFrom {} more := by
  rw [eventsFrom,line_data,eventsFrom]
  have hjoin : ['\n'].intercalate [text]=text := by
    simp [List.intercalate]
  rw [Pending.line,if_pos rfl,if_neg (by simp)]
  simp [message,hjoin]

/-- Texts without line breaks that are sent as data are read back. -/
theorem readStream_data {texts : List (List Char)} (h : ∀ text∈texts, '\n'∉text ∧ '\r'∉text) :
    readStream (texts.flatMap dataEvent)=texts.map message := by
  have hunified : unified (texts.flatMap dataEvent)=texts.flatMap dataEvent := by
    refine unified_of_notMem fun hmem => ?_
    obtain ⟨text,htext,hc⟩ := List.mem_flatMap.mp hmem
    rcases List.mem_append.mp hc with hc|hc
    · rcases List.mem_append.mp hc with hc|hc
      · exact absurd hc (by decide)
      · exact (h text htext).2 hc
    · exact absurd hc (by decide)
  rw [readStream,hunified]
  clear hunified
  induction texts with
  | nil => rfl
  | cons text texts ih =>
    obtain ⟨htext,htexts⟩ := List.forall_mem_cons.mp h
    have hlines : (linesOf ((text::texts).flatMap dataEvent)).1=
        ("data: ".toList++text)::[]::(linesOf (texts.flatMap dataEvent)).1 := by
      have hsplit : (text::texts).flatMap dataEvent=
          ("data: ".toList++text)++ '\n'::([]++ '\n'::texts.flatMap dataEvent) := by
        rw [List.flatMap_cons]
        exact List.append_assoc ("data: ".toList++text) ['\n','\n'] (texts.flatMap dataEvent)
      have hfirst : '\n'∉"data: ".toList++text := by
        intro hmem
        rcases List.mem_append.mp hmem with hmem|hmem
        · exact absurd hmem (by decide)
        · exact htext.1 hmem
      rw [hsplit,linesOf_line hfirst,linesOf_line List.not_mem_nil]
    rw [hlines,eventsFrom_data,ih htexts,List.map_cons]

end AegisRuntime.EventStreams
