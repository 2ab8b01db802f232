import CommandTape.Channel
import CommandTape.Proofs.HandingOff

/-!
# Messages in a stream

A stream has no ends of messages in it. What tells two messages apart is that the first came with
descriptors: whoever receives is given no more than that at once. A message that hands off a tape
without segments has none, and so is received together with what follows it, if anything has come
in behind it by then. So each message is received by itself just if that never happens
(`Traffic.received_apart`). Nothing is lost or comes out of order in any case
(`Traffic.Conserved`).
-/

namespace CommandTape

/-! ## Taking from a stream -/

namespace Channel

variable {room n : Nat} {chunk next : Chunk} {rest chunks : List Chunk}

/-- What came with descriptors is taken by itself. -/
theorem take_of_descriptors (hroom : chunk.bytes.length ≤ room) (h : chunk.descriptors ≠ []) :
    take room (chunk :: rest) = (chunk.bytes, chunk.descriptors, rest) := by
  rw [take, if_neg (Nat.not_lt.2 hroom), if_neg (by simpa using h)]

/-- What came without descriptors is taken together with what follows. -/
theorem take_of_no_descriptors (hroom : chunk.bytes.length ≤ room) (h : chunk.descriptors = []) :
    take room (chunk :: rest) = (chunk.bytes ++ (take (room - chunk.bytes.length) rest).1,
      (take (room - chunk.bytes.length) rest).2) := by
  rw [take, if_neg (Nat.not_lt.2 hroom), if_pos (by simp [h])]

/-- Something is taken if there is something and there is room. -/
theorem take_ne_nil (hroom : 0 < room) (h : chunk.bytes ≠ []) :
    (take room (chunk :: rest)).1 ≠ [] := by
  by_cases hlt : room < chunk.bytes.length
  · rw [take, if_pos hlt, if_neg (Nat.ne_of_gt hroom)]
    simp [h, Nat.ne_of_gt hroom]
  · have hle := Nat.le_of_not_lt hlt
    by_cases hnone : chunk.descriptors = []
    · rw [take_of_no_descriptors hle hnone]
      simp [h]
    · rw [take_of_descriptors hle hnone]
      exact h

/-- What is taken, and what is left, is what there was. -/
theorem take_append (room : Nat) (chunks : List Chunk) :
    (take room chunks).1 ++ (take room chunks).2.2.flatMap Chunk.bytes =
        chunks.flatMap Chunk.bytes ∧
      (take room chunks).2.1 ++ (take room chunks).2.2.flatMap Chunk.descriptors =
        chunks.flatMap Chunk.descriptors := by
  induction chunks generalizing room with
  | nil => exact ⟨rfl, rfl⟩
  | cons chunk rest ih =>
    by_cases hlt : room < chunk.bytes.length
    · rw [take, if_pos hlt]
      by_cases hzero : room = 0
      · rw [if_pos hzero]
        exact ⟨rfl, rfl⟩
      · rw [if_neg hzero]
        simp only [List.flatMap_cons, List.nil_append, and_true]
        rw [← List.append_assoc, List.take_append_drop]
    · have hle := Nat.le_of_not_lt hlt
      by_cases hnone : chunk.descriptors = []
      · obtain ⟨hbytes, hdescriptors⟩ := ih (room - chunk.bytes.length)
        rw [take_of_no_descriptors hle hnone]
        simp only [List.flatMap_cons, hnone, List.nil_append, List.append_assoc]
        rw [hbytes]
        exact ⟨rfl, hdescriptors⟩
      · rw [take_of_descriptors hle hnone]
        exact ⟨rfl, rfl⟩

/-- No more descriptors are taken than came with some part. -/
theorem length_descriptors_take (room : Nat) (h : ∀ chunk ∈ chunks, chunk.descriptors.length ≤ n) :
    (take room chunks).2.1.length ≤ n := by
  induction chunks generalizing room with
  | nil => exact Nat.zero_le _
  | cons chunk rest ih =>
    have hfirst := h chunk List.mem_cons_self
    by_cases hlt : room < chunk.bytes.length
    · rw [take, if_pos hlt]
      by_cases hzero : room = 0
      · rw [if_pos hzero]
        exact Nat.zero_le _
      · rw [if_neg hzero]
        exact hfirst
    · have hle := Nat.le_of_not_lt hlt
      by_cases hnone : chunk.descriptors = []
      · rw [take_of_no_descriptors hle hnone]
        exact ih _ fun other hmem => h other (List.mem_cons_of_mem _ hmem)
      · rw [take_of_descriptors hle hnone]
        exact hfirst

/-- What is left has the descriptors that it had, or none. -/
theorem mem_take (hmem : next ∈ (take room chunks).2.2) :
    next ∈ chunks ∨ next.descriptors = [] := by
  induction chunks generalizing room with
  | nil => exact absurd hmem List.not_mem_nil
  | cons chunk rest ih =>
    by_cases hlt : room < chunk.bytes.length
    · rw [take, if_pos hlt] at hmem
      by_cases hzero : room = 0
      · rw [if_pos hzero] at hmem
        exact Or.inl hmem
      · rw [if_neg hzero] at hmem
        rcases List.mem_cons.1 hmem with rfl | hrest
        · exact Or.inr rfl
        · exact Or.inl (List.mem_cons_of_mem _ hrest)
    · have hle := Nat.le_of_not_lt hlt
      by_cases hnone : chunk.descriptors = []
      · rw [take_of_no_descriptors hle hnone] at hmem
        rcases ih hmem with hrest | hnone
        · exact Or.inl (List.mem_cons_of_mem _ hrest)
        · exact Or.inr hnone
      · rw [take_of_descriptors hle hnone] at hmem
        exact Or.inl (List.mem_cons_of_mem _ hmem)

/-- What is received next runs over the end of a message: that came without descriptors, and there
is more behind it. -/
def Joins (channel : Channel) : Prop :=
  ∃ chunk next rest, channel.chunks = chunk :: next :: rest ∧ chunk.descriptors = []

end Channel

/-! ## Messages -/

namespace Message

/-- The message hands off a tape. -/
def OfTape (m : Message) : Prop :=
  ∃ (σ : Type) (tape : Tape σ) (sender : UInt64) (s : Session σ), (tape.handOff sender s).1 = .ok m

/-- The message as it is sent. -/
def chunk (m : Message) : Chunk := ⟨m.data, m.descriptors⟩

variable {m : Message}

/-- A message that hands off a tape has an entry for each of its descriptors, and is within the
limits. -/
theorem OfTape.length_eq (h : m.OfTape) :
    m.data.length = headerSize + m.descriptors.length * entrySize ∧
      m.descriptors.length ≤ segmentLimit := by
  obtain ⟨σ, tape, sender, s, hsent⟩ := h
  rw [Tape.handOff_fst] at hsent
  rcases ofViews_cases sender (tape.views s.store) with
    ⟨m', hm', hdescribes, hle, -⟩ | ⟨reason, hm', -⟩
  · obtain rfl := Except.ok.inj (hm'.symm.trans hsent)
    have hframed := hdescribes.framed hle
    refine ⟨?_, ?_⟩
    · rw [hframed.length_eq, hframed.descriptors_eq]
    · rw [hframed.descriptors_eq]
      exact hframed.count_le
  · cases hm'.symm.trans hsent

theorem OfTape.length_data_le (h : m.OfTape) : m.data.length ≤ Channel.receiveLimit := by
  obtain ⟨hlength, hle⟩ := h.length_eq
  unfold Channel.receiveLimit
  unfold segmentLimit at hle ⊢
  unfold entrySize at hlength ⊢
  omega

theorem OfTape.data_ne_nil (h : m.OfTape) : m.data ≠ [] := by
  obtain ⟨hlength, -⟩ := h.length_eq
  intro hnil
  rw [hnil, List.length_nil] at hlength
  unfold headerSize at hlength
  omega

/-- A message without descriptors leaves room for what follows it. -/
theorem OfTape.length_data_lt (h : m.OfTape) (hnone : m.descriptors = []) :
    m.data.length < Channel.receiveLimit := by
  obtain ⟨hlength, -⟩ := h.length_eq
  rw [hlength, hnone]
  decide

end Message

/-! ## Traffic -/

/-- A stream, and the messages that were sent and received. -/
structure Traffic where
  channel : Channel
  sent : List Message
  received : List Message

namespace Traffic

/-- What can happen at the ends of the stream. -/
inductive Event where
  | send (m : Message)
  | receive
  /-- The sender closes its end, and sends no more. -/
  | hangUp

/-- Nothing was sent yet. -/
def start : Traffic := ⟨.opened, [], []⟩

/-- Sends a message. -/
def send (t : Traffic) (m : Message) : Traffic :=
  match t.channel.send m with
  | (.ok (), channel) => { t with channel := channel, sent := t.sent ++ [m] }
  | (.error _, channel) => { t with channel := channel }

/-- Receives what there is, if there is anything. -/
def receive (t : Traffic) : Traffic :=
  match t.channel.receive with
  | (.ok (some m), channel) => { t with channel := channel, received := t.received ++ [m] }
  | (_, channel) => { t with channel := channel }

/-- What happens. -/
def perform (t : Traffic) : Event → Traffic
  | .send m => if t.channel.senderOpen then t.send m else t
  | .receive => t.receive
  | .hangUp => { t with channel := t.channel.closeSender }

/-- What happens in order. -/
def run (t : Traffic) : List Event → Traffic
  | [] => t
  | event :: rest => (t.perform event).run rest

variable {t : Traffic} {m : Message} {event : Event} {events : List Event}

/-! ### What is kept in any case -/

/-- What was sent is what was received and what is still in the stream, in order, as far as bytes
and descriptors are concerned. -/
structure Conserved (t : Traffic) : Prop where
  receiverOpen : t.channel.receiverOpen = true
  ofTape : ∀ m ∈ t.sent, m.OfTape
  descriptors_le : ∀ chunk ∈ t.channel.chunks, chunk.descriptors.length ≤ Message.segmentLimit
  data_eq : t.sent.flatMap Message.data =
    t.received.flatMap Message.data ++ t.channel.chunks.flatMap Chunk.bytes
  descriptors_eq : t.sent.flatMap Message.descriptors =
    t.received.flatMap Message.descriptors ++ t.channel.chunks.flatMap Chunk.descriptors

theorem conserved_start : start.Conserved :=
  ⟨rfl, by simp [start], by simp [start, Channel.opened], rfl, rfl⟩

/-- A message that hands off a tape is sent as a whole. -/
theorem Conserved.channel_send (h : t.Conserved) (hm : m.OfTape) :
    t.channel.send m =
      (.ok (), { t.channel with chunks := t.channel.chunks ++ [m.chunk] }) := by
  have hfew : ¬Channel.descriptorLimit < m.descriptors.length :=
    Nat.not_lt.2 (Nat.le_trans hm.length_eq.2 (by decide))
  have hsome : ¬m.data.isEmpty = true := by simpa using hm.data_ne_nil
  rw [Channel.send, if_neg hfew, if_pos h.receiverOpen, if_neg hsome]
  rfl

theorem Conserved.send_eq (h : t.Conserved) (hm : m.OfTape) :
    t.send m = ⟨{ t.channel with chunks := t.channel.chunks ++ [m.chunk] }, t.sent ++ [m],
      t.received⟩ := by
  rw [send, h.channel_send hm]

/-- What receiving comes to: nothing if the stream is empty, or a message off its front. -/
theorem Conserved.receive_eq (h : t.Conserved) :
    (t.channel.chunks = [] ∧ t.receive = t) ∨
    t.channel.chunks ≠ [] ∧ t.receive =
      ⟨{ t.channel with chunks := (Channel.take Channel.receiveLimit t.channel.chunks).2.2 },
        t.sent, t.received ++ [⟨(Channel.take Channel.receiveLimit t.channel.chunks).1,
          (Channel.take Channel.receiveLimit t.channel.chunks).2.1⟩]⟩ := by
  by_cases hempty : t.channel.chunks = []
  · refine Or.inl ⟨hempty, ?_⟩
    rw [receive, Channel.receive, if_pos (by simp [hempty])]
    by_cases hopen : t.channel.senderOpen = true
    · rw [if_pos hopen]
    · rw [if_neg hopen]
  · have hall : ((Channel.take Channel.receiveLimit t.channel.chunks).2.1).take
        Message.segmentLimit = (Channel.take Channel.receiveLimit t.channel.chunks).2.1 :=
      List.take_of_length_le (Channel.length_descriptors_take _ h.descriptors_le)
    refine Or.inr ⟨hempty, ?_⟩
    rw [receive, Channel.receive, if_neg (by simpa using hempty)]
    dsimp only
    rw [hall]

theorem Conserved.perform (h : t.Conserved) (hevent : ∀ m, event = .send m → m.OfTape) :
    (t.perform event).Conserved := by
  cases event with
  | send m =>
    have hm := hevent m rfl
    rw [Traffic.perform]
    by_cases hopen : t.channel.senderOpen = true
    · rw [if_pos hopen, h.send_eq hm]
      refine ⟨h.receiverOpen, ?_, ?_, ?_, ?_⟩
      · intro other hmem
        rcases List.mem_append.1 hmem with hbefore | hnew
        · exact h.ofTape other hbefore
        · rwa [List.mem_singleton.1 hnew]
      · intro chunk hmem
        rcases List.mem_append.1 hmem with hbefore | hnew
        · exact h.descriptors_le chunk hbefore
        · rw [List.mem_singleton.1 hnew]
          exact hm.length_eq.2
      · simp only [List.flatMap_append, h.data_eq, List.append_assoc]
        rfl
      · simp only [List.flatMap_append, h.descriptors_eq, List.append_assoc]
        rfl
    · rwa [if_neg hopen]
  | receive =>
    rw [Traffic.perform]
    rcases h.receive_eq with ⟨-, heq⟩ | ⟨-, heq⟩
    · rwa [heq]
    · obtain ⟨hbytes, hdescriptors⟩ :=
        Channel.take_append Channel.receiveLimit t.channel.chunks
      rw [heq]
      refine ⟨h.receiverOpen, h.ofTape, ?_, ?_, ?_⟩
      · intro chunk hmem
        rcases Channel.mem_take hmem with hbefore | hnone
        · exact h.descriptors_le chunk hbefore
        · rw [hnone]
          exact Nat.zero_le _
      · rw [h.data_eq, ← hbytes, List.flatMap_append, List.flatMap_singleton, List.append_assoc]
      · rw [h.descriptors_eq, ← hdescriptors, List.flatMap_append, List.flatMap_singleton,
          List.append_assoc]
  | hangUp => exact ⟨h.receiverOpen, h.ofTape, h.descriptors_le, h.data_eq, h.descriptors_eq⟩

theorem Conserved.run (h : t.Conserved) (hevents : ∀ m, Event.send m ∈ events → m.OfTape) :
    (t.run events).Conserved := by
  induction events generalizing t with
  | nil => exact h
  | cons event rest ih =>
    refine ih (h.perform ?_) fun m hmem => hevents m (List.mem_cons_of_mem _ hmem)
    rintro m rfl
    exact hevents m List.mem_cons_self

/-! ### Messages that are received by themselves -/

/-- What was received are the first of the messages that were sent, each as it was, and the others
are still in the stream. -/
def Faithful (t : Traffic) : Prop :=
  ∃ waiting, t.sent = t.received ++ waiting ∧ t.channel.chunks = waiting.map Message.chunk

/-- Some message was received as another one than was sent. -/
def Spoiled (t : Traffic) : Prop :=
  ∃ (k : Nat) (m m' : Message), t.sent[k]? = some m ∧ t.received[k]? = some m' ∧ m' ≠ m

theorem Faithful.received_front (h : t.Faithful) : t.received <+: t.sent := by
  obtain ⟨waiting, hsent, -⟩ := h
  exact ⟨waiting, hsent.symm⟩

theorem Spoiled.not_received_front (h : t.Spoiled) : ¬t.received <+: t.sent := by
  rintro ⟨rest, hrest⟩
  obtain ⟨k, m, m', hsent, hreceived, hne⟩ := h
  have hlt : k < t.received.length := (List.getElem?_eq_some_iff.1 hreceived).1
  rw [← hrest, List.getElem?_append_left hlt, hreceived] at hsent
  exact hne (Option.some.inj hsent)

/-- What was received by itself stays so, unless what is received next runs over the end of a
message. -/
theorem Faithful.perform (h : t.Faithful) (hconserved : t.Conserved)
    (hevent : ∀ m, event = .send m → m.OfTape) (hapart : event = .receive → ¬t.channel.Joins) :
    (t.perform event).Faithful := by
  have hsame := h
  obtain ⟨waiting, hsent, hchunks⟩ := h
  cases event with
  | send m =>
    have hm := hevent m rfl
    rw [Traffic.perform]
    by_cases hopen : t.channel.senderOpen = true
    · rw [if_pos hopen, hconserved.send_eq hm]
      refine ⟨waiting ++ [m], ?_, ?_⟩
      · rw [hsent, List.append_assoc]
      · rw [hchunks, List.map_append, List.map_singleton]
    · rwa [if_neg hopen]
  | receive =>
    rw [Traffic.perform]
    rcases hconserved.receive_eq with ⟨-, heq⟩ | ⟨hne, heq⟩
    · rwa [heq]
    · cases waiting with
      | nil => exact absurd hchunks hne
      | cons m rest =>
        have hm : m.OfTape := hconserved.ofTape m (by simp [hsent])
        have htake : Channel.take Channel.receiveLimit t.channel.chunks =
            (m.data, m.descriptors, rest.map Message.chunk) := by
          rw [hchunks, List.map_cons]
          by_cases hnone : m.descriptors = []
          · -- nothing waits behind a message without descriptors
            cases rest with
            | nil =>
              rw [List.map_nil, Channel.take_of_no_descriptors hm.length_data_le hnone,
                Channel.take, List.append_nil, hnone]
              rfl
            | cons next rest => exact absurd ⟨_, _, _, hchunks, hnone⟩ (hapart rfl)
          · exact Channel.take_of_descriptors hm.length_data_le hnone
        rw [heq, htake]
        refine ⟨rest, ?_, rfl⟩
        rw [hsent, List.append_assoc]
        rfl
  | hangUp => exact ⟨waiting, hsent, hchunks⟩

/-- What runs over the end of a message is another message. -/
theorem Faithful.spoiled_of_joins (h : t.Faithful) (hconserved : t.Conserved)
    (hjoins : t.channel.Joins) : (t.perform .receive).Spoiled := by
  obtain ⟨waiting, hsent, hchunks⟩ := h
  obtain ⟨chunk, next, rest, hfront, hnone⟩ := hjoins
  obtain ⟨m, waiting', rfl, hm, hwaiting⟩ :=
    List.map_eq_cons_iff.1 (hchunks.symm.trans hfront)
  obtain ⟨m', rest', rfl, hm', hrest⟩ := List.map_eq_cons_iff.1 hwaiting
  subst hm hm'
  have hmade : m.OfTape := hconserved.ofTape m (by simp [hsent])
  have hmade' : m'.OfTape := hconserved.ofTape m' (by simp [hsent])
  have hroom : 0 < Channel.receiveLimit - m.data.length := by
    have hlt := hmade.length_data_lt hnone
    omega
  have hlonger : m.data ++ (Channel.take (Channel.receiveLimit - m.data.length)
      (m'.chunk :: rest)).1 ≠ m.data := by
    have hmore : (Channel.take (Channel.receiveLimit - m.data.length) (m'.chunk :: rest)).1 ≠ [] :=
      Channel.take_ne_nil hroom hmade'.data_ne_nil
    simpa using hmore
  rcases hconserved.receive_eq with ⟨hnil, -⟩ | ⟨-, heq⟩
  · rw [hfront] at hnil
    cases hnil
  · have htaken : Channel.take Channel.receiveLimit (m.chunk :: m'.chunk :: rest) = _ :=
      Channel.take_of_no_descriptors hmade.length_data_le hnone
    rw [Traffic.perform, heq, hfront, htaken]
    refine ⟨t.received.length, m, _, ?_, List.getElem?_concat_length, ?_⟩
    · rw [hsent]
      simp
    · intro hsame
      exact hlonger (congrArg Message.data hsame)

/-- A message that was received as another one stays so. -/
theorem Spoiled.perform (h : t.Spoiled) (event : Event) : (t.perform event).Spoiled := by
  obtain ⟨k, m, m', hsent, hreceived, hne⟩ := h
  have hstays {before after : List Message} (hfront : before <+: after) {x : Message}
      (hget : before[k]? = some x) : after[k]? = some x := by
    obtain ⟨more, rfl⟩ := hfront
    rw [List.getElem?_append_left (List.getElem?_eq_some_iff.1 hget).1]
    exact hget
  have hgrow {t' : Traffic} (hsent' : t.sent <+: t'.sent)
      (hreceived' : t.received <+: t'.received) : t'.Spoiled :=
    ⟨k, m, m', hstays hsent' hsent, hstays hreceived' hreceived, hne⟩
  cases event with
  | send other =>
    rw [Traffic.perform]
    by_cases hopen : t.channel.senderOpen = true
    · rw [if_pos hopen, Traffic.send]
      split
      · exact hgrow (List.prefix_append _ _) List.prefix_rfl
      · exact hgrow List.prefix_rfl List.prefix_rfl
    · rw [if_neg hopen]
      exact hgrow List.prefix_rfl List.prefix_rfl
  | receive =>
    rw [Traffic.perform, Traffic.receive]
    split
    · exact hgrow List.prefix_rfl (List.prefix_append _ _)
    · exact hgrow List.prefix_rfl List.prefix_rfl
  | hangUp => exact hgrow List.prefix_rfl List.prefix_rfl

theorem Spoiled.run (h : t.Spoiled) (events : List Event) : (t.run events).Spoiled := by
  induction events generalizing t with
  | nil => exact h
  | cons event rest ih => exact ih (h.perform event)

/-! ### Runs -/

theorem mem_sent_perform (hmem : m ∈ (t.perform event).sent) : m ∈ t.sent ∨ event = .send m := by
  cases event with
  | send other =>
    rw [Traffic.perform] at hmem
    by_cases hopen : t.channel.senderOpen = true
    · rw [if_pos hopen, Traffic.send] at hmem
      split at hmem
      · rcases List.mem_append.1 hmem with hbefore | hnew
        · exact Or.inl hbefore
        · rw [List.mem_singleton.1 hnew]
          exact Or.inr rfl
      · exact Or.inl hmem
    · rw [if_neg hopen] at hmem
      exact Or.inl hmem
  | receive =>
    rw [Traffic.perform, Traffic.receive] at hmem
    split at hmem
    · exact Or.inl hmem
    · exact Or.inl hmem
  | hangUp => exact Or.inl hmem

/-- No receiving in the course of the events runs over the end of a message. -/
def Apart (t : Traffic) (events : List Event) : Prop :=
  ∀ past future, events = past ++ .receive :: future → ¬(t.run past).channel.Joins

theorem Apart.head (h : t.Apart (event :: events)) : event = .receive → ¬t.channel.Joins := by
  rintro rfl
  exact h [] events rfl

theorem Apart.tail (h : t.Apart (event :: events)) : (t.perform event).Apart events := by
  intro past future hevents
  refine h (event :: past) future ?_
  rw [hevents, List.cons_append]

theorem Apart.cons (hhead : event = .receive → ¬t.channel.Joins)
    (htail : (t.perform event).Apart events) : t.Apart (event :: events) := by
  intro past future hsplit
  cases past with
  | nil => exact hhead (List.cons.inj hsplit).1
  | cons first past =>
    obtain ⟨rfl, hrest⟩ := List.cons.inj hsplit
    exact htail past future hrest

theorem apart_nil (t : Traffic) : t.Apart [] := by
  intro past future hsplit
  cases past <;> cases hsplit

theorem Faithful.run (h : t.Faithful) (hconserved : t.Conserved)
    (hevents : ∀ m, Event.send m ∈ events → m.OfTape) (hapart : t.Apart events) :
    (t.run events).Faithful := by
  induction events generalizing t with
  | nil => exact h
  | cons event rest ih =>
    have hevent : ∀ m, event = .send m → m.OfTape := by
      rintro m rfl
      exact hevents m List.mem_cons_self
    exact ih (h.perform hconserved hevent hapart.head) (hconserved.perform hevent)
      (fun m hmem => hevents m (List.mem_cons_of_mem _ hmem)) hapart.tail

/-- Once something runs over the end of a message, some message is received as another one. -/
theorem Faithful.spoiled_run (h : t.Faithful) (hconserved : t.Conserved)
    (hevents : ∀ m, Event.send m ∈ events → m.OfTape) (hjoined : ¬t.Apart events) :
    (t.run events).Spoiled := by
  induction events generalizing t with
  | nil => exact absurd t.apart_nil hjoined
  | cons event rest ih =>
    have hevent : ∀ m, event = .send m → m.OfTape := by
      rintro m rfl
      exact hevents m List.mem_cons_self
    by_cases hhead : event = .receive → ¬t.channel.Joins
    · refine ih (h.perform hconserved hevent hhead) (hconserved.perform hevent)
        (fun m hmem => hevents m (List.mem_cons_of_mem _ hmem)) ?_
      intro hrest
      exact hjoined (.cons hhead hrest)
    · obtain ⟨rfl, hjoins⟩ := Classical.not_imp.1 hhead
      exact (h.spoiled_of_joins hconserved (Classical.not_not.1 hjoins)).run rest

/-- Messages with descriptors are never run over. -/
theorem Faithful.apart_of_descriptors (h : t.Faithful) (hconserved : t.Conserved)
    (hsent : ∀ m ∈ t.sent, m.descriptors ≠ [])
    (hevents : ∀ m, Event.send m ∈ events → m.OfTape ∧ m.descriptors ≠ []) : t.Apart events := by
  induction events generalizing t with
  | nil => exact t.apart_nil
  | cons event rest ih =>
    have hhead : ¬t.channel.Joins := by
      rintro ⟨chunk, next, more, hchunks, hnone⟩
      obtain ⟨waiting, hwaiting, hmap⟩ := h
      obtain ⟨m, waiting', rfl, rfl, -⟩ := List.map_eq_cons_iff.1 (hmap.symm.trans hchunks)
      exact hsent m (by simp [hwaiting]) hnone
    have hevent : ∀ m, event = .send m → m.OfTape ∧ m.descriptors ≠ [] := by
      rintro m rfl
      exact hevents m List.mem_cons_self
    have hnext := h.perform hconserved (fun m heq => (hevent m heq).1) fun _ => hhead
    refine .cons (fun _ => hhead) (ih hnext (hconserved.perform fun m heq => (hevent m heq).1) ?_
      fun m hmem => hevents m (List.mem_cons_of_mem _ hmem))
    intro m hmem
    rcases mem_sent_perform hmem with hbefore | heq
    · exact hsent m hbefore
    · exact (hevent m heq).2

/-- The sender's end is open until the sender hangs up. -/
theorem Conserved.senderOpen_run (h : t.Conserved)
    (hevents : ∀ m, Event.send m ∈ events → m.OfTape) (hopen : t.channel.senderOpen = true)
    (hhangUp : Event.hangUp ∉ events) : (t.run events).channel.senderOpen = true := by
  induction events generalizing t with
  | nil => exact hopen
  | cons event rest ih =>
    have hevent : ∀ m, event = .send m → m.OfTape := by
      rintro m rfl
      exact hevents m List.mem_cons_self
    refine ih (h.perform hevent) (fun m hmem => hevents m (List.mem_cons_of_mem _ hmem)) ?_
      fun hmem => hhangUp (List.mem_cons_of_mem _ hmem)
    cases event with
    | send m =>
      rw [Traffic.perform, if_pos hopen, h.send_eq (hevent m rfl)]
      exact hopen
    | receive =>
      rw [Traffic.perform]
      rcases h.receive_eq with ⟨-, heq⟩ | ⟨-, heq⟩
      · rwa [heq]
      · rw [heq]
        exact hopen
    | hangUp => exact absurd List.mem_cons_self hhangUp

/-- Nothing is received only from an empty stream, once the sender hung up. -/
theorem chunks_of_receive_none (hnone : t.channel.receive.1 = .ok none) :
    t.channel.chunks = [] ∧ t.channel.senderOpen = false := by
  unfold Channel.receive at hnone
  split at hnone
  · rename_i hempty
    split at hnone
    · cases hnone
    · rename_i hopen
      exact ⟨by simpa using hempty, Bool.eq_false_iff.2 hopen⟩
  · cases hnone

/-- However messages that hand off tapes are sent and received, all sends succeed, and what was
received are the first of the messages that were sent, each by itself and as it was, just if nothing
was ever received that runs over the end of a message; it never does if all messages come with
descriptors. Bytes and descriptors come in order in any case. And nothing is received only when
everything that was sent was received, and the sender hung up. -/
theorem received_apart (hevents : ∀ m, Event.send m ∈ events → m.OfTape) :
    let t := start.run events
    (t.received <+: t.sent ↔ start.Apart events) ∧
    ((∀ m, Event.send m ∈ events → m.descriptors ≠ []) → start.Apart events) ∧
    (∀ m, m.OfTape → (t.channel.send m).1 = .ok ()) ∧
    t.Conserved ∧
    (t.channel.receive.1 = .ok none →
      Event.hangUp ∈ events ∧
      t.received.flatMap Message.data = t.sent.flatMap Message.data ∧
      t.received.flatMap Message.descriptors = t.sent.flatMap Message.descriptors ∧
      (start.Apart events → t.received = t.sent)) := by
  intro t
  have hstart : start.Faithful := ⟨[], rfl, rfl⟩
  have hconserved : t.Conserved := conserved_start.run hevents
  refine ⟨⟨?_, ?_⟩, ?_, ?_, hconserved, ?_⟩
  · intro hfront
    by_contra hjoined
    exact (hstart.spoiled_run conserved_start hevents hjoined).not_received_front hfront
  · intro hapart
    exact (hstart.run conserved_start hevents hapart).received_front
  · intro hdescriptors
    refine hstart.apart_of_descriptors conserved_start (by simp [start]) ?_
    intro m hmem
    exact ⟨hevents m hmem, hdescriptors m hmem⟩
  · intro m hm
    rw [hconserved.channel_send hm]
  · intro hnone
    obtain ⟨hempty, hclosed⟩ := chunks_of_receive_none hnone
    refine ⟨?_, ?_, ?_, ?_⟩
    · by_contra hhangUp
      have hopen := conserved_start.senderOpen_run hevents rfl hhangUp
      exact absurd (hopen.symm.trans hclosed) (by decide)
    · rw [hconserved.data_eq, hempty, List.flatMap_nil, List.append_nil]
    · rw [hconserved.descriptors_eq, hempty, List.flatMap_nil, List.append_nil]
    · intro hapart
      obtain ⟨waiting, hsent, hchunks⟩ := hstart.run conserved_start hevents hapart
      have hwaiting : waiting = [] := List.map_eq_nil_iff.1 (hchunks.symm.trans hempty)
      rw [hsent, hwaiting, List.append_nil]

/-- The message that hands off what another program recorded. -/
def handed : Message :=
  ⟨[3, 0, 0, 0, 0, 0, 0, 0, 1, 0, 0, 0, 14, 231, 144, 125,
    1, 0, 0, 0, 0, 0, 0, 0, 16, 0, 0, 0, 0, 0, 0, 0], [.memory 0]⟩

/-- Two messages with descriptors wait in the stream at the same time, and are received one by
one. -/
theorem received_apart_sample :
    let t := start.run [.send handed, .send handed, .receive, .receive, .hangUp]
    t.received = [handed, handed] ∧ t.received <+: t.sent ∧ t.channel.receive.1 = .ok none ∧
      t.received = t.sent := by
  intro t
  have hevents : ∀ m,
      Event.send m ∈ [Event.send handed, .send handed, .receive, .receive, .hangUp] →
        m = handed := by
    intro m hmem
    simpa using hmem
  have hmade : handed.OfTape := by
    refine ⟨Tallies, .ofSegments [Sample.handed], 3, Sample.sharing, ?_⟩
    decide +kernel
  obtain ⟨hfront, hapart, -, -, hlast⟩ := received_apart fun m hmem => hevents m hmem ▸ hmade
  have hnone : t.channel.receive.1 = .ok none := by decide
  have happly := hapart fun m hmem => by
    rw [hevents m hmem]
    decide
  exact ⟨by decide, hfront.2 happly, hnone, (hlast hnone).2.2.2 happly⟩

/-- The message in which the sender hands off a tape without segments. -/
def blank (sender : UInt64) : Message :=
  ⟨LittleEndian.encode 8 sender.toNat ++ [0, 0, 0, 0, 255, 255, 255, 255], []⟩

/-- Two tapes without segments are handed off before anything is received: what is received then is
neither of the two messages. -/
theorem received_joined :
    let first := blank 0x100000000
    let second := blank 0x100000001
    let t := start.run [.send first, .send second, .receive]
    first.OfTape ∧ second.OfTape ∧ t.sent = [first, second] ∧
      t.received = [⟨first.data ++ second.data, []⟩] ∧ ¬t.received <+: t.sent := by
  intro first second t
  refine ⟨?_, ?_, ?_, ?_, ?_⟩
  · refine ⟨Unit, .empty, 0x100000000, .start Sample.machine (), ?_⟩
    decide +kernel
  · refine ⟨Unit, .empty, 0x100000001, .start Sample.machine (), ?_⟩
    decide +kernel
  · decide +kernel
  · decide +kernel
  · decide +kernel

end Traffic

end CommandTape
