import NtAdmin.Drizzle.Server.Session

/-! The loops of `ServerRequest::CallServerNotification` that send the request to the backend. -/
namespace NtAdmin.Drizzle.Server

open NtAdmin.Lib

/-- A request that went out: the length that it announced, the body sent so far, and whether the
loop that sends the body is done. -/
structure Attempt where
  announced : ℕ
  sent : List UInt8
  complete : Bool

inductive PostPhase
  | send
  | reopen
  | read (totalRead : ℕ)
  | write (buffer : List UInt8) (totalRead : ℕ)
  | receive (i : ℕ)
  | done
  | failed
  deriving DecidableEq

/-- The loops at work. `position` is the file pointer of the cache file, the last attempt comes
first. -/
structure Post where
  dwBufferTotal : ℕ
  file : List UInt8
  position : ℕ
  phase : PostPhase
  attempts : List Attempt

inductive Received
  | resend
  | error
  | status (code : ℕ)

/-- What the calls of the loops come to. A read delivers up to `n` bytes, a write takes `n`. -/
inductive PostEvent
  | sendRequest (ok : Bool)
  | createFile (ok : Bool)
  | readFile (n : ℕ) (ok : Bool)
  | writeData (n : ℕ) (ok : Bool)
  | receiveResponse (r : Received)

def notifyBufferSize : ℕ := 1024
def httpStatusContinue : ℕ := 100

namespace Post

def start (byRef : Bool) (file : List UInt8) : Post :=
  { dwBufferTotal := if byRef then 0 else file.length % 2 ^ 32
    file, position := 0, phase := .send, attempts := [] }

def updateAttempt (p : Post) (f : Attempt → Attempt) : Post :=
  { p with attempts := p.attempts.modifyHead f }

/-- The condition of the loop that reads the file. -/
def nextRead (p : Post) (totalRead : ℕ) : Post :=
  if totalRead < p.dwBufferTotal then { p with phase := .read totalRead }
  else { p.updateAttempt fun a => { a with complete := true } with phase := .receive 0 }

/-- `WinHttpSendRequest`, after which a request without a body waits for its response. -/
def sendRequest (p : Post) : Post :=
  if p.dwBufferTotal ≠ 0 then
    { p with phase := .reopen, attempts := ⟨p.dwBufferTotal, [], false⟩ :: p.attempts }
  else { p with phase := .receive 0, attempts := ⟨0, [], true⟩ :: p.attempts }

/-- The cache file is open again and its file pointer at the beginning. -/
def createFile (p : Post) : Post := { p with position := 0, phase := .read 0 }

def readFile (p : Post) (totalRead n : ℕ) : Post :=
  let buffer := (p.file.drop p.position).take (min n notifyBufferSize)
  let p := { p with position := p.position + buffer.length }
  let totalRead := (totalRead + buffer.length) % 2 ^ 32
  if 0 < buffer.length then { p with phase := .write buffer totalRead }
  else p.nextRead totalRead

def writeData (p : Post) (buffer : List UInt8) (totalRead n : ℕ) : Post :=
  let p := p.updateAttempt fun a => { a with sent := a.sent ++ buffer.take n }
  if buffer.drop n ≠ [] then { p with phase := .write (buffer.drop n) totalRead }
  else p.nextRead totalRead

/-- A response of status 100 is skipped once if there was a body. -/
def receiveResponse (p : Post) (i : ℕ) : Received → Post
  | .resend => { p with phase := .send }
  | .error => { p with phase := .failed }
  | .status code =>
    if p.dwBufferTotal ≠ 0 ∧ code = httpStatusContinue ∧ i + 1 < 2 then
      { p with phase := .receive (i + 1) }
    else { p with phase := .done }

/-- The next call returns. Nothing else happens. -/
def step (e : PostEvent) (p : Post) : Post :=
  match p.phase, e with
  | .send, .sendRequest ok => if ok then p.sendRequest else { p with phase := .failed }
  | .reopen, .createFile ok => if ok then p.createFile else { p with phase := .failed }
  | .read totalRead, .readFile n ok =>
    if ok then p.readFile totalRead n else { p with phase := .failed }
  | .write buffer totalRead, .writeData n ok =>
    if ok then p.writeData buffer totalRead n else { p with phase := .failed }
  | .receive i, .receiveResponse r => p.receiveResponse i r
  | _, _ => p

end Post

/-- The attempt announces the whole file, and has sent it when it is complete. -/
structure Attempt.Whole (file : List UInt8) (a : Attempt) : Prop where
  announced : a.announced = file.length
  sent : a.sent <+: file
  complete : a.complete = true → a.sent = file

/-- An attempt without a body. -/
def Attempt.Bodiless (a : Attempt) : Prop := a.announced = 0 ∧ a.sent = []

/-- What a notification of each mode posts. -/
def Posts (byRef : Bool) (file : List UInt8) (attempts : List Attempt) : Prop :=
  ∀ a ∈ attempts, if byRef then a.Bodiless else a.Whole file

namespace Post
variable {p : Post} {file : List UInt8} {byRef : Bool}

/-- Where the loops of a notification by value are with the last attempt. -/
inductive Sending (file : List UInt8) : Post → Prop
  | between {n pos phase attempts} (hn : n = file.length) (hphase : phase = .send ∨
      (∃ i, phase = .receive i) ∨ phase = .done ∨ phase = .failed)
      (hattempts : ∀ a ∈ attempts, a.Whole file) : Sending file ⟨n, file, pos, phase, attempts⟩
  | reopen {n pos attempts} (hn : n = file.length) (hfile : 0 < n)
      (hattempts : ∀ a ∈ attempts, a.Whole file) :
      Sending file ⟨n, file, pos, .reopen, ⟨n, [], false⟩ :: attempts⟩
  | read {n pos attempts} (hn : n = file.length) (hpos : pos < n)
      (hattempts : ∀ a ∈ attempts, a.Whole file) :
      Sending file ⟨n, file, pos, .read pos, ⟨n, file.take pos, false⟩ :: attempts⟩
  | write {n pos sent buffer attempts} (hn : n = file.length) (hpos : pos ≤ n)
      (hsplit : sent ++ buffer = file.take pos) (hattempts : ∀ a ∈ attempts, a.Whole file) :
      Sending file ⟨n, file, pos, .write buffer pos, ⟨n, sent, false⟩ :: attempts⟩

theorem whole_cons {n : ℕ} {sent : List UInt8} {attempts : List Attempt} (hn : n = file.length)
    (hsent : sent <+: file) (hattempts : ∀ a ∈ attempts, a.Whole file) :
    ∀ a ∈ ⟨n, sent, false⟩ :: attempts, a.Whole file := by
  intro a ha
  cases List.mem_cons.mp ha with
  | inl heq =>
    subst heq
    exact ⟨hn, hsent, fun h => Bool.noConfusion h⟩
  | inr ha => exact hattempts a ha

theorem Sending.whole (h : Sending file p) : ∀ a ∈ p.attempts, a.Whole file := by
  cases h with
  | between _ _ hattempts => exact hattempts
  | reopen hn _ hattempts => exact whole_cons hn List.nil_prefix hattempts
  | read hn _ hattempts => exact whole_cons hn (List.take_prefix _ _) hattempts
  | @write n pos sent buffer attempts hn _ hsplit hattempts =>
    have hsent : sent <+: file.take pos := ⟨buffer, hsplit⟩
    exact whole_cons hn (hsent.trans (List.take_prefix _ _)) hattempts

/-- The loop reads on until it has all of the file. -/
theorem nextRead_sending {n pos : ℕ} {phase : PostPhase} {attempts : List Attempt}
    (hn : n = file.length) (hattempts : ∀ a ∈ attempts, a.Whole file) :
    Sending file
      (nextRead ⟨n, file, pos, phase, ⟨n, file.take pos, false⟩ :: attempts⟩ pos) := by
  unfold nextRead
  split_ifs with hmore
  · exact .read hn hmore hattempts
  · have hall : file.take pos = file := by
      rw [List.take_of_length_le]
      exact hn ▸ Nat.not_lt.mp hmore
    refine .between hn (Or.inr (Or.inl ⟨0, rfl⟩)) fun a ha => ?_
    cases List.mem_cons.mp ha with
    | inl heq =>
      subst heq
      exact ⟨hn, List.take_prefix _ _, fun _ => hall⟩
    | inr ha => exact hattempts a ha

theorem readFile_sending {n pos : ℕ} {attempts : List Attempt} (hfit : file.length < 2 ^ 32)
    (hn : n = file.length) (hpos : pos < n) (hattempts : ∀ a ∈ attempts, a.Whole file) (k : ℕ) :
    Sending file
      (readFile ⟨n, file, pos, .read pos, ⟨n, file.take pos, false⟩ :: attempts⟩ pos k) := by
  have hprefix := List.take_prefix (min k notifyBufferSize) (file.drop pos)
  have htake := List.prefix_iff_eq_take.mp hprefix
  have hlen := hprefix.length_le
  rw [List.length_drop] at hlen
  have hfront : file.take (pos + ((file.drop pos).take (min k notifyBufferSize)).length) =
      file.take pos ++ (file.drop pos).take (min k notifyBufferSize) := by
    rw [List.take_add, ← htake]
  unfold readFile
  dsimp only
  rw [Nat.mod_eq_of_lt (by omega)]
  split_ifs with hsome
  · exact .write hn (by omega) hfront.symm hattempts
  · have hzero : ((file.drop pos).take (min k notifyBufferSize)).length = 0 := by omega
    rw [hzero, Nat.add_zero]
    exact nextRead_sending hn hattempts

theorem writeData_sending {n pos : ℕ} {sent buffer : List UInt8} {attempts : List Attempt}
    (hn : n = file.length) (hpos : pos ≤ n) (hsplit : sent ++ buffer = file.take pos)
    (hattempts : ∀ a ∈ attempts, a.Whole file) (k : ℕ) :
    Sending file
      (writeData ⟨n, file, pos, .write buffer pos, ⟨n, sent, false⟩ :: attempts⟩ buffer pos k) := by
  have hnext : sent ++ buffer.take k ++ buffer.drop k = file.take pos := by
    rw [List.append_assoc, List.take_append_drop, hsplit]
  unfold writeData updateAttempt
  dsimp only
  split_ifs with hleft
  · exact .write hn hpos hnext hattempts
  · rw [not_not.mp hleft, List.append_nil] at hnext
    rw [List.modifyHead_cons, hnext]
    exact nextRead_sending hn hattempts

theorem Sending.step (hfit : file.length < 2 ^ 32) (e : PostEvent) (h : Sending file p) :
    Sending file (step e p) := by
  cases h with
  | @between n pos phase attempts hn hphase hattempts =>
    rcases hphase with rfl | ⟨i, rfl⟩ | rfl | rfl
    · cases e with
      | sendRequest ok =>
        cases ok with
        | false => exact .between hn (Or.inr (Or.inr (Or.inr rfl))) hattempts
        | true =>
          show Sending file (sendRequest _)
          unfold sendRequest
          split_ifs with hzero
          · exact .reopen hn (Nat.pos_of_ne_zero hzero) hattempts
          · have hempty : file.length = 0 := hn ▸ not_not.mp hzero
            refine .between hn (Or.inr (Or.inl ⟨0, rfl⟩)) fun a ha => ?_
            cases List.mem_cons.mp ha with
            | inl heq =>
              subst heq
              exact ⟨hempty.symm, List.nil_prefix, fun _ =>
                (List.eq_nil_of_length_eq_zero hempty).symm⟩
            | inr ha => exact hattempts a ha
      | _ => exact .between hn (Or.inl rfl) hattempts
    · cases e with
      | receiveResponse r =>
        show Sending file (receiveResponse _ i r)
        cases r with
        | resend => exact .between hn (Or.inl rfl) hattempts
        | error => exact .between hn (Or.inr (Or.inr (Or.inr rfl))) hattempts
        | status code =>
          unfold receiveResponse
          dsimp only
          split_ifs
          · exact .between hn (Or.inr (Or.inl ⟨i + 1, rfl⟩)) hattempts
          · exact .between hn (Or.inr (Or.inr (Or.inl rfl))) hattempts
      | _ => exact .between hn (Or.inr (Or.inl ⟨i, rfl⟩)) hattempts
    · exact .between hn (Or.inr (Or.inr (Or.inl rfl))) hattempts
    · exact .between hn (Or.inr (Or.inr (Or.inr rfl))) hattempts
  | @reopen n pos attempts hn hpos hattempts =>
    cases e with
    | createFile ok =>
      cases ok with
      | false =>
        exact .between hn (Or.inr (Or.inr (Or.inr rfl)))
          (whole_cons hn List.nil_prefix hattempts)
      | true => exact .read hn hpos hattempts
    | _ => exact .reopen hn hpos hattempts
  | @read n pos attempts hn hpos hattempts =>
    cases e with
    | readFile k ok =>
      cases ok with
      | false =>
        exact .between hn (Or.inr (Or.inr (Or.inr rfl)))
          (whole_cons hn (List.take_prefix _ _) hattempts)
      | true => exact readFile_sending hfit hn hpos hattempts k
    | _ => exact .read hn hpos hattempts
  | @write n pos sent buffer attempts hn hpos hsplit hattempts =>
    cases e with
    | writeData k ok =>
      cases ok with
      | false =>
        have hwrite : Sending _ _ := Sending.write hn hpos hsplit hattempts
        have hwhole := hwrite.whole
        exact .between hn (Or.inr (Or.inr (Or.inr rfl))) hwhole
      | true => exact writeData_sending hn hpos hsplit hattempts k
    | _ => exact .write hn hpos hsplit hattempts

/-- The loop of a notification by reference. -/
structure Bodiless (p : Post) : Prop where
  dwBufferTotal : p.dwBufferTotal = 0
  phase : p.phase = .send ∨ (∃ i, p.phase = .receive i) ∨ p.phase = .done ∨ p.phase = .failed
  attempts : ∀ a ∈ p.attempts, a.Bodiless

theorem Bodiless.step (e : PostEvent) (h : Bodiless p) : Bodiless (step e p) := by
  obtain ⟨n, file, pos, phase, attempts⟩ := p
  obtain ⟨hzero, hphase, hattempts⟩ := h
  dsimp only at hzero hphase hattempts
  subst hzero
  rcases hphase with rfl | ⟨i, rfl⟩ | rfl | rfl
  · cases e with
    | sendRequest ok =>
      cases ok with
      | false => exact ⟨rfl, Or.inr (Or.inr (Or.inr rfl)), hattempts⟩
      | true =>
        refine ⟨rfl, Or.inr (Or.inl ⟨0, rfl⟩), fun a ha => ?_⟩
        cases List.mem_cons.mp ha with
        | inl heq => exact heq ▸ ⟨rfl, rfl⟩
        | inr ha => exact hattempts a ha
    | _ => exact ⟨rfl, Or.inl rfl, hattempts⟩
  · cases e with
    | receiveResponse r =>
      cases r with
      | resend => exact ⟨rfl, Or.inl rfl, hattempts⟩
      | error => exact ⟨rfl, Or.inr (Or.inr (Or.inr rfl)), hattempts⟩
      | status code => exact ⟨rfl, Or.inr (Or.inr (Or.inl rfl)), hattempts⟩
    | _ => exact ⟨rfl, Or.inr (Or.inl ⟨i, rfl⟩), hattempts⟩
  · exact ⟨rfl, Or.inr (Or.inr (Or.inl rfl)), hattempts⟩
  · exact ⟨rfl, Or.inr (Or.inr (Or.inr rfl)), hattempts⟩

/-- The first attempt announces the length that a `DWORD` holds. -/
theorem first_announced (file : List UInt8) :
    ∃ a ∈ (runAll step [.sendRequest true] (start false file)).attempts,
      a.announced = file.length % 2 ^ 32 := by
  show ∃ a ∈ (sendRequest (start false file)).attempts, _
  unfold sendRequest
  split_ifs with hzero
  · exact ⟨_, List.mem_cons_self, rfl⟩
  · exact ⟨_, List.mem_cons_self, (not_not.mp hzero).symm⟩

/-- Every attempt of every run posts what its mode asks for, unless the length of a file that is
sent by value does not fit a `DWORD`. -/
theorem posts_iff (byRef : Bool) (file : List UInt8) :
    (∀ events, Posts byRef file (runAll step events (start byRef file)).attempts) ↔
      byRef = true ∨ file.length < 2 ^ 32 := by
  constructor
  · intro h
    by_contra hnot
    obtain ⟨hval, hlong⟩ := not_or.mp hnot
    rw [Bool.not_eq_true] at hval
    subst hval
    have hmod := Nat.mod_lt file.length (Nat.two_pow_pos 32)
    obtain ⟨a, ha, heq⟩ := first_announced file
    have hwhole : a.Whole file := h [.sendRequest true] a ha
    have hsame := hwhole.announced
    omega
  · intro h events
    cases byRef with
    | true =>
      have hstart : Bodiless (start true file) := ⟨rfl, Or.inl rfl, by intro a ha; cases ha⟩
      have hrun : Bodiless (runAll step events (start true file)) :=
        runAll_invariant (fun e _ (_ : True) hp => hp.step e) hstart
          (along_of_forall (fun _ _ => trivial) events _)
      exact fun a ha => hrun.attempts a ha
    | false =>
      have hfit := h.resolve_left Bool.false_ne_true
      have hstart : Sending file (start false file) :=
        .between (Nat.mod_eq_of_lt hfit) (Or.inl rfl) (by intro a ha; cases ha)
      have hrun : Sending file (runAll step events (start false file)) :=
        runAll_invariant (fun e _ (_ : True) hp => hp.step hfit e) hstart
          (along_of_forall (fun _ _ => trivial) events _)
      exact fun a ha => hrun.whole a ha

/-- A file of 2^32 bytes is announced as an empty one. -/
theorem not_posts_large :
    ¬Posts false (List.replicate (2 ^ 32) 0)
      (runAll step [.sendRequest true] (start false (List.replicate (2 ^ 32) 0))).attempts := by
  intro h
  obtain ⟨a, ha, heq⟩ := first_announced (List.replicate (2 ^ 32) 0)
  have hwhole : a.Whole (List.replicate (2 ^ 32) 0) := h a ha
  have hsame := hwhole.announced
  rw [heq, List.length_replicate] at hsame
  exact absurd hsame (by decide)

end Post

end NtAdmin.Drizzle.Server
