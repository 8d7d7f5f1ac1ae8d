import CPlusServer.Http.Client
import CPlusServer.Net.Delivery

/-!
# File responses

`OnHttpReponse` sends the head of a file response and then, with `SendFile`,
`content_length_` bytes of the file. The head is the one of a response with its
body in memory, so it announces the size of `body_`.
-/

namespace CPlusServer

/-- A keep-alive response that is sent from a file, with the bytes that `SendFile` sends for its
content length. -/
structure FileResponse where
  response : HttpResponse
  order : List (Bytes × Bytes)
  file : Bytes
  iterates : Iterates response.header order
  keepAlive : response.close = false
  fileType : response.bodyType = ascii "FILE_TYPE"
  length : response.contentLength = file.length
  message_ok : ∀ ch ∈ response.statusMessage, ch ≠ CR ∧ ch ≠ LF
  key_ok : ∀ kv ∈ order, ∀ ch ∈ kv.1, ch ≠ CR ∧ ch ≠ LF ∧ ch ≠ chr ':'
  key_other : ∀ kv ∈ order, kv.1 ∉ ownKeys
  value_ok : ∀ kv ∈ order, ∀ ch ∈ kv.2, ch ≠ CR ∧ ch ≠ LF

namespace FileResponse

def print (m : FileResponse) : Bytes := m.response.sent m.order ++ m.file

def meaning (m : FileResponse) : Received :=
  ⟨m.response.statusCode.value, m.response.statusMessage, m.response.header, m.file⟩

/-- A client that goes by the Content-Length takes the file for the body, whatever follows. -/
def Recovered (m : FileResponse) : Prop :=
  ∀ following, Client.readResponse (m.print ++ following) = some (m.meaning, following)

structure Framed (m : FileResponse) : Prop where
  announced : Client.announced (m.response.getPreBody m.order) = m.response.contentLength
  recovered : m.Recovered

def inMemory (m : FileResponse) : InMemory where
  response := { m.response with bodyType := ascii "HTML_TYPE" }
  order := m.order
  iterates := m.iterates
  keepAlive := m.keepAlive
  html := rfl
  message_ok := m.message_ok
  key_ok := m.key_ok
  key_other := m.key_other
  value_ok := m.value_ok

theorem print_eq (m : FileResponse) :
    m.print = m.inMemory.response.getPreBody m.inMemory.order ++ m.file := by
  have hfile : m.response.bodyType ≠ ascii "HTML_TYPE" := by
    rw [m.fileType]
    decide
  unfold print HttpResponse.sent
  rw [if_neg hfile]
  rfl

theorem announced_eq (m : FileResponse) :
    Client.announced (m.response.getPreBody m.order) = m.response.body.length :=
  Client.announced_preBody m.inMemory

theorem readResponse_print (m : FileResponse) (following : Bytes) :
    Client.readResponse (m.print ++ following) =
      if m.response.body.length ≤ (m.file ++ following).length then
        some ({ m.meaning with body := (m.file ++ following).take m.response.body.length },
          (m.file ++ following).drop m.response.body.length)
      else none := by
  rw [m.print_eq, List.append_assoc]
  exact Client.readResponse_preBody m.inMemory (m.file ++ following)

/-- The file is not taken for the body when the size of `body_` is another. -/
theorem recovered_iff (m : FileResponse) :
    m.Recovered ↔ m.response.body.length = m.file.length := by
  constructor
  · intro h
    have hread := h []
    rw [readResponse_print, List.append_nil] at hread
    split_ifs at hread with hle
    obtain ⟨-, hrest⟩ := Prod.mk.inj (Option.some.inj hread)
    have hge := List.drop_eq_nil_iff.1 hrest
    omega
  · intro h following
    rw [readResponse_print, h, if_pos (by simp), List.take_left, List.drop_left]
    rfl

/-- **Framing of file responses.** The head announces the content length, and a client recovers the
file and what follows it, exactly when `body_` has as many bytes as the file. -/
theorem framed_iff (m : FileResponse) : m.Framed ↔ m.response.body.length = m.file.length := by
  constructor
  · intro h
    exact m.recovered_iff.1 h.recovered
  · intro h
    refine ⟨?_, m.recovered_iff.2 h⟩
    rw [m.announced_eq, m.length, h]

theorem download_message_ok :
    ∀ ch ∈ Connection.download.statusMessage, ch ≠ CR ∧ ch ≠ LF := List.forall_mem_nil _

def download : FileResponse where
  response := Connection.download
  order := [(ascii "Content-Type", ascii "application/octet-stream")]
  file := [chr 'x']
  iterates := ⟨List.nodup_singleton _, fun k v => by
    have hheader : Connection.download.header =
        (∅ : StringMap).insert (ascii "Content-Type") (ascii "application/octet-stream") := rfl
    rw [hheader, List.mem_singleton, Prod.mk.injEq]
    by_cases hk : k = ascii "Content-Type"
    · rw [hk, Finmap.lookup_insert, Option.some.injEq, eq_comm (a := v)]
      exact and_iff_right rfl
    · rw [Finmap.lookup_insert_of_ne _ hk, Finmap.lookup_empty]
      exact iff_of_false (fun h => hk h.1) nofun⟩
  keepAlive := rfl
  fileType := rfl
  length := rfl
  message_ok := download_message_ok
  key_ok := fun kv hkv => by
    rw [List.mem_singleton.1 hkv]
    exact List.all_iff_forall_prop.1 rfl
  key_other := by decide
  value_ok := fun kv hkv => by
    rw [List.mem_singleton.1 hkv]
    exact List.all_iff_forall_prop.1 rfl

/-- The length announced is 0, and the file begins what a client takes for the next response. -/
theorem not_framed_download :
    Client.announced (download.response.getPreBody download.order) = 0 ∧
      Client.readResponse download.print = some ({ download.meaning with body := [] }, [chr 'x']) ∧
      ¬ download.Framed := by
  have hannounced : Client.announced (download.response.getPreBody download.order) = 0 :=
    download.announced_eq
  refine ⟨hannounced, ?_, ?_⟩
  · have hread := download.readResponse_print []
    rw [List.append_nil] at hread
    exact hread
  · intro h
    have heq := h.announced
    rw [hannounced] at heq
    revert heq
    decide

end FileResponse

end CPlusServer
