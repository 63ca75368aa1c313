import Osp.Lighttpd.Lemmas.Request

/-!
# Rejected requests and the connection

A connection is not used for a further request after one that was rejected, with one exception: `http_request_parse` rejects a version
it does not support with status 505 and leaves `keep_alive` as the request before has set it.
-/

namespace Osp.Lighttpd

open Osp.Lib

variable {conf : Conf} {con con' : Con}

/-- A connection that is not kept is shut down after the response. -/
theorem shutdown_of_keepAlive (h : con.keepAlive = false) (inError : Bool) (bytesIn : Int) :
    (handleResponseEndState con inError bytesIn).1 = .shutdown := by
  unfold handleResponseEndState
  split <;> simp [h]

/-- After the next request on a connection was rejected, the connection is closed, exactly if the connection was not kept before or
the version of the request is not one that is well formed and not supported. -/
theorem rejected_closes_iff (conf : Conf) (con : Con) (block : Bytes) :
    (400 ≤ (httpRequestParse conf (con.next block)).2.httpStatus →
      (httpRequestParse conf (con.next block)).2.keepAlive = false ∧
        ∀ inError bytesIn, (handleResponseEndState (httpRequestParse conf (con.next block)).2 inError bytesIn).1 = .shutdown) ↔
    ¬ (con.keepAlive = true ∧ UnsupportedVersion conf (con.next block)) := by
  by_cases hversion : UnsupportedVersion conf (con.next block)
  · obtain ⟨con', hparse, hstatus, hkeep⟩ := parseRequest_of_unsupportedVersion hversion
    have hresult : (httpRequestParse conf (con.next block)).2 = con' := by rw [httpRequestParse, hparse]
    rw [hresult, hstatus]
    constructor
    · rintro h ⟨hkept, _⟩
      rw [(h (by decide)).1] at hkeep
      exact absurd (hkeep.trans hkept) (by decide)
    · intro h _
      have hclosed : con'.keepAlive = false := by
        rw [hkeep]
        exact Bool.eq_false_iff.2 fun hkept => h ⟨hkept, hversion⟩
      exact ⟨hclosed, shutdown_of_keepAlive hclosed⟩
  · refine iff_of_true (fun hstatus => ?_) fun h => hversion h.2
    rw [httpRequestParse] at hstatus ⊢
    cases hparse : parseRequest conf (con.next block) with
    | ok result =>
      -- a request that is accepted has no status yet
      obtain ⟨con₁, host, p, haccepts⟩ := accepts_of_parseRequest rfl hparse
      simp only [hparse, haccepts.status_eq] at hstatus
      exact absurd hstatus (by decide)
    | error con' =>
      have hclosed := (rejectsClosed_parseRequest hversion con' hparse).keepAlive
      exact ⟨hclosed, shutdown_of_keepAlive hclosed⟩

/-- A connection whose first request was answered and that is kept. -/
def Con.kept : Con :=
  (handleResponseEndState
    (httpRequestParse .default (Con.accepted.next (textBytes "GET / HTTP/1.1\r\nHost: a\r\n\r\n"))).2 false 0).2

/-- The request after it has a version that is not supported: it is rejected, and the connection goes on to the next request. -/
theorem unsupported_version_keeps_connection :
    (httpRequestParse .default (Con.kept.next (textBytes "GET / HTTP/2.0\r\nHost: a\r\n\r\n"))).2.httpStatus = 505 ∧
      (httpRequestParse .default (Con.kept.next (textBytes "GET / HTTP/2.0\r\nHost: a\r\n\r\n"))).2.keepAlive = true ∧
      (handleResponseEndState
        (httpRequestParse .default (Con.kept.next (textBytes "GET / HTTP/2.0\r\nHost: a\r\n\r\n"))).2 false 0).1 = .requestStart := by
  decide

end Osp.Lighttpd
