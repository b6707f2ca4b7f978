import LibWorkflow.Service.TcpClient

/-!
# Framing

What the receiver of a connection hands on. A body is appended to `buff` only while more of it is
missing, and then no further read is started: whatever arrives, the texts handed to `str_load` are empty
(`loaded_of_matched`), and the first body that does not come whole in one delivery is the last one read
(`stalled_of_not_matched`). So only the empty messages come through, and these only where the heads are
cut so that what they and the rest of the buffer spell is the length of the next delivery
(`lossless_iff`).
-/

namespace LibWorkflow

namespace TcpClient

def headed (data : Buffer) (head : Bytes) : Buffer := (data.fill head).terminate 10

/-- Each head, read into what is left in the buffer, spells the length of the delivery after it. -/
def Matched : Buffer → List Bytes → Prop
  | data, head :: body :: rest =>
    readSize (headed data head).cString = UInt64.ofNat body.length ∧
      Matched ((headed data head).fill body) rest
  | _, _ => True

/-- The receiver takes the stream of these messages in these deliveries, as far as it reads. -/
structure Transmission (c : TcpClient) (payloads chunks : List Bytes) (c' : TcpClient) : Prop where
  taken : c.startRead.deliverAll chunks = some c'
  stream : chunks.flatten <+: stream payloads
  complete : chunks.flatten = TcpClient.stream payloads ∨ c'.outstanding = none

/-- The messages were handed on, in order and each once, and a read is outstanding. -/
def Lossless (c' : TcpClient) (payloads : List Bytes) : Prop :=
  c'.loaded = payloads ∧ c'.outstanding.isSome = true

/-- Between two messages, with nothing in `buff`. -/
structure Awaiting (c : TcpClient) : Prop where
  outstanding : c.outstanding = some .head
  buff : c.buff = []

variable {c c' : TcpClient}

theorem Awaiting.deliver (hc : Awaiting c) {head : Bytes} (h : c.deliver false head = some c') :
    c' = { c with
      data := headed c.data head
      expectedSize := readSize (headed c.data head).cString
      outstanding := some .body } := by
  unfold TcpClient.deliver at h
  rw [hc.outstanding] at h
  dsimp only at h
  split_ifs at h
  cases h
  rfl

theorem sub_eq_zero_iff (a b : UInt64) : a - b = 0 ↔ a = b := by
  constructor
  · intro h
    have hadd : a - b + b = 0 + b := by rw [h]
    simpa using hadd
  · rintro rfl
    simp

/-- A body that comes whole is the end of a message, and the text handed on is the empty `buff`. -/
theorem deliver_body {body : Bytes} (h : c.deliver false body = some c')
    (hreading : c.outstanding = some .body) (hbuff : c.buff = [])
    (hsize : c.expectedSize = UInt64.ofNat body.length) :
    Awaiting c' ∧ c'.data = c.data.fill body ∧ c'.loaded = c.loaded ++ [[]] := by
  unfold deliver at h
  rw [hreading] at h
  dsimp only at h
  split_ifs at h
  unfold handleReadBody at h
  have hzero : c.expectedSize - UInt64.ofNat body.length = 0 := (sub_eq_zero_iff _ _).mpr hsize
  simp only [hzero, Bool.not_false, decide_true, Bool.and_self, if_true, Option.some.injEq] at h
  subst h
  exact ⟨⟨rfl, hbuff⟩, rfl, by rw [startRead, hbuff]⟩

/-- After a body that is not yet whole no read is started. -/
theorem deliver_part {body : Bytes} (h : c.deliver false body = some c')
    (hreading : c.outstanding = some .body) (hsize : c.expectedSize ≠ UInt64.ofNat body.length) :
    c'.outstanding = none := by
  unfold deliver at h
  rw [hreading] at h
  dsimp only at h
  split_ifs at h
  unfold handleReadBody at h
  have hzero : c.expectedSize - UInt64.ofNat body.length ≠ 0 := fun h => hsize ((sub_eq_zero_iff _ _).mp h)
  simp only [hzero, Bool.not_false, decide_false, Bool.and_false, Bool.false_eq_true, if_false, if_true,
    Option.some.injEq] at h
  subst h
  rfl

theorem deliverAll_cons {chunk : Bytes} {rest : List Bytes} :
    c.deliverAll (chunk :: rest) = some c' ↔
      ∃ c₁, c.deliver false chunk = some c₁ ∧ c₁.deliverAll rest = some c' := Option.bind_eq_some_iff

/-- Where no read is outstanding nothing more is delivered. -/
theorem deliverAll_of_stalled {chunks : List Bytes} (hc : c.outstanding = none)
    (h : c.deliverAll chunks = some c') : c' = c := by
  cases chunks with
  | nil => cases h; rfl
  | cons chunk rest =>
    obtain ⟨c₁, hfirst, -⟩ := deliverAll_cons.mp h
    unfold deliver at hfirst
    rw [hc] at hfirst
    cases hfirst

/-- As long as the heads match, every second delivery hands on an empty text. -/
theorem loaded_of_matched : ∀ {chunks : List Bytes} {c : TcpClient}, Awaiting c →
    Matched c.data chunks → c.deliverAll chunks = some c' →
    c'.loaded = c.loaded ++ List.replicate (chunks.length / 2) [] ∧ c'.outstanding.isSome = true
  | [], c, hc, _, h => by
    cases h
    simp [hc.outstanding]
  | [head], c, hc, _, h => by
    obtain ⟨c₁, hhead, hrest⟩ := deliverAll_cons.mp h
    cases hrest
    rw [hc.deliver hhead]
    simp
  | head :: body :: rest, c, hc, hmatched, h => by
    obtain ⟨c₁, hhead, htail⟩ := deliverAll_cons.mp h
    obtain ⟨c₂, hbody, hrest⟩ := deliverAll_cons.mp htail
    have hc₁ := hc.deliver hhead
    subst hc₁
    obtain ⟨hc₂, hdata, hloaded⟩ := deliver_body hbody rfl hc.buff hmatched.1
    obtain ⟨hall, houtstanding⟩ := loaded_of_matched hc₂ (hdata ▸ hmatched.2) hrest
    refine ⟨?_, houtstanding⟩
    have hhalf : (head :: body :: rest).length / 2 = rest.length / 2 + 1 := by
      simp only [List.length_cons]
      omega
    rw [hall, hloaded, hhalf, List.replicate_succ, List.append_assoc, List.singleton_append]

/-- Where a head does not match, the receiver ends up without a read. -/
theorem stalled_of_not_matched : ∀ {chunks : List Bytes} {c : TcpClient}, Awaiting c →
    ¬Matched c.data chunks → c.deliverAll chunks = some c' → c'.outstanding = none
  | [], _, _, hmatched, _ => absurd trivial hmatched
  | [_], _, _, hmatched, _ => absurd trivial hmatched
  | head :: body :: rest, c, hc, hmatched, h => by
    obtain ⟨c₁, hhead, htail⟩ := deliverAll_cons.mp h
    obtain ⟨c₂, hbody, hrest⟩ := deliverAll_cons.mp htail
    have hc₁ := hc.deliver hhead
    subst hc₁
    by_cases hsize : readSize (headed c.data head).cString = UInt64.ofNat body.length
    · obtain ⟨hc₂, hdata, -⟩ := deliver_body hbody rfl hc.buff hsize
      have hrest' : ¬Matched c₂.data rest := fun h => hmatched ⟨hsize, hdata ▸ h⟩
      exact stalled_of_not_matched hc₂ hrest' hrest
    · have hstalled := deliver_part hbody rfl hsize
      rw [deliverAll_of_stalled hstalled hrest]
      exact hstalled

theorem awaiting_startRead (data : Buffer) (expectedSize : UInt64) :
    Awaiting (new data expectedSize).startRead := ⟨rfl, rfl⟩

/-- **Framing.** However the stream of some messages is cut, a receiver hands them on and goes on
reading just when the messages are empty, one to each pair of deliveries, and the heads match. -/
theorem lossless_iff {data : Buffer} {expectedSize : UInt64} {payloads chunks : List Bytes}
    {c' : TcpClient} (h : Transmission (new data expectedSize) payloads chunks c') :
    Lossless c' payloads ↔
      (∀ payload ∈ payloads, payload = []) ∧ chunks.length / 2 = payloads.length ∧
        Matched data chunks := by
  have hstart := awaiting_startRead data expectedSize
  constructor
  · rintro ⟨hloaded, houtstanding⟩
    by_cases hmatched : Matched data chunks
    · obtain ⟨hall, -⟩ := loaded_of_matched hstart hmatched h.taken
      have hpayloads : payloads = List.replicate (chunks.length / 2) [] := by
        rw [← hloaded, hall]
        rfl
      refine ⟨fun payload hmem => ?_, ?_, hmatched⟩
      · rw [hpayloads] at hmem
        exact List.eq_of_mem_replicate hmem
      · rw [hpayloads, List.length_replicate]
    · rw [stalled_of_not_matched hstart hmatched h.taken] at houtstanding
      cases houtstanding
  · rintro ⟨hempty, hlength, hmatched⟩
    obtain ⟨hall, houtstanding⟩ := loaded_of_matched hstart hmatched h.taken
    refine ⟨?_, houtstanding⟩
    rw [hall, hlength]
    exact (List.eq_replicate_of_mem hempty).symm

end TcpClient

namespace Sample

open TcpClient

def blank : Buffer := ⟨List.replicate 1024 0, List.length_replicate⟩

/-- The message "a", cut after its head. -/
def letter : List Bytes := [showSize 1, [97]]

theorem letter_transmitted : ∃ c', Transmission (new blank 0) [[97]] letter c' := by
  have hstream : letter.flatten = stream [[97]] := by decide
  obtain ⟨c', htaken⟩ : ∃ c', (new blank 0).startRead.deliverAll letter = some c' :=
    Option.isSome_iff_exists.mp (by decide)
  exact ⟨c', htaken, hstream ▸ List.prefix_rfl, .inl hstream⟩

theorem letter_matched : Matched blank letter := ⟨by decide, trivial⟩

theorem letter_lossless_iff : ∃ c', Transmission (new blank 0) [[97]] letter c' ∧
    (Lossless c' [[97]] ↔ (∀ payload ∈ ([[97]] : List Bytes), payload = []) ∧ letter.length / 2 = [[97]].length ∧
      Matched blank letter) := by
  obtain ⟨c', h⟩ := letter_transmitted
  exact ⟨c', h, lossless_iff h⟩

/-- The receiver hands on an empty text for the message "a". -/
theorem letter_lost : ∃ c', Transmission (new blank 0) [[97]] letter c' ∧ ¬Lossless c' [[97]] := by
  obtain ⟨c', h⟩ := letter_transmitted
  refine ⟨c', h, fun hlossless => ?_⟩
  obtain ⟨hall, -⟩ := loaded_of_matched (awaiting_startRead blank 0) letter_matched h.taken
  exact absurd (hall.symm.trans hlossless.1) (by decide)

end Sample

end LibWorkflow
