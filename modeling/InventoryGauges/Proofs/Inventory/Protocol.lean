import InventoryGauges.Proofs.Inventory.Rows

/-!
# The protocol of a session

A session sends class queries with the token of its latest granted login.  A
query that is refused logs in again, once, and is repeated once.
-/

namespace InventoryGauges
namespace Inventory

/-- A request and how it ended. -/
abbrev Exchanged := Http.Request × Except String Http.Response

/-! ## Logins -/

namespace Account

variable {account : Account} {exchanges : List Exchanged}

/-- How a login ends whose request is answered so. -/
def granted (account : Account) : Except String Http.Response → Except Error String
  | .error message => .error (.login account.loginUrl.toString message)
  | .ok response =>
      match response.body with
      | .error message => .error (.transport message)
      | .ok body =>
          if response.isSuccess then tokenOf body
          else .error (.login account.loginUrl.toString s!"HTTP {response.status}: {body}")

theorem finishes_login_iff {result : Except Error String} :
    Program.Finishes Http.Answered account.login exchanges result ↔
      ∃ answer, exchanges = [(account.loginRequest, answer)] ∧ result = account.granted answer := by
  refine Http.finishes_send_bind_iff fun answer => ?_
  cases answer with
  | error message => rfl
  | ok response =>
      dsimp only [granted]
      cases response.body with
      | error message => rfl
      | ok body =>
          dsimp only
          split <;> rfl

/-- The answers to the logins among some exchanges. -/
def logins (account : Account) (exchanges : List Exchanged) : List (Except String Http.Response) :=
  (exchanges.filter fun exchange => exchange.1 = account.loginRequest).map Prod.snd

/-- The exchanges other than logins. -/
def attempts (account : Account) (exchanges : List Exchanged) : List Exchanged :=
  exchanges.filter fun exchange => exchange.1 ≠ account.loginRequest

/-- The token of the latest granted login among some exchanges. -/
def latestToken? (account : Account) (exchanges : List Exchanged) : Option String :=
  ((account.logins exchanges).filterMap fun answer => (account.granted answer).toOption).getLast?

section Among

variable {answer : Except String Http.Response} {others : List Exchanged}

theorem logins_append : account.logins (exchanges ++ others) =
    account.logins exchanges ++ account.logins others := by
  simp [logins]

@[simp] theorem logins_nil : account.logins [] = [] := rfl

@[simp] theorem logins_login :
    account.logins ((account.loginRequest, answer) :: exchanges) =
      answer :: account.logins exchanges := by
  simp [logins]

@[simp] theorem attempts_nil : account.attempts [] = [] := rfl

@[simp] theorem attempts_login :
    account.attempts ((account.loginRequest, answer) :: exchanges) =
      account.attempts exchanges := by
  simp [attempts]

theorem latestToken?_append :
    account.latestToken? (exchanges ++ others) =
      (account.latestToken? others).or (account.latestToken? exchanges) := by
  simp [latestToken?, logins_append, List.getLast?_append]

end Among

end Account

theorem Session.classRequest_ne_loginRequest (session : Session) (className filter : String)
    (account : Account) : session.classRequest className filter ≠ account.loginRequest := by
  intro same
  have methods : "GET" = "POST" := congrArg Http.Request.method same
  exact absurd methods (by decide)

section Among

variable {account : Account} {session : Session} {className filter : String}
  {answer : Except String Http.Response} {exchanges : List Exchanged}

@[simp] theorem Account.logins_classRequest :
    account.logins ((session.classRequest className filter, answer) :: exchanges) =
      account.logins exchanges := by
  simp [logins, session.classRequest_ne_loginRequest]

@[simp] theorem Account.attempts_classRequest :
    account.attempts ((session.classRequest className filter, answer) :: exchanges) =
      (session.classRequest className filter, answer) :: account.attempts exchanges := by
  simp [attempts, session.classRequest_ne_loginRequest]

end Among

/-! ## Queries -/

namespace Session

/-- The result of a query whose repeated attempt ends so. -/
def Attempt.resultAgain (className : String) : Attempt → Except Error (List Object)
  | .finished result => result
  | .unauthorized => .error (.query className 401 "session rejected after re-login")

/-- The courses of a class query: the exchanges, the result and the session
afterwards. -/
inductive Course (session : Session) (className filter : String) :
    List Exchanged → Except Error (List Object) → Session → Prop
  | settled {answer : Except String Http.Response} {result : Except Error (List Object)}
      (settles : Attempt.of className answer = .finished result) :
      Course session className filter [(session.classRequest className filter, answer)] result
        session
  | loginFailed {first answer : Except String Http.Response} {error : Error}
      (refused : Attempt.of className first = .unauthorized)
      (fails : session.account.granted answer = .error error) :
      Course session className filter
        [(session.classRequest className filter, first), (session.account.loginRequest, answer)]
        (.error error) session
  | repeated {first answer : Except String Http.Response} {token : String}
      (refused : Attempt.of className first = .unauthorized)
      (grants : session.account.granted answer = .ok token)
      (last : Except String Http.Response) :
      Course session className filter
        [(session.classRequest className filter, first), (session.account.loginRequest, answer),
          ({ session with token }.classRequest className filter, last)]
        ((Attempt.of className last).resultAgain className) { session with token }

variable {session after : Session} {className filter : String} {exchanges : List Exchanged}
  {result : Except Error (List Object)}

theorem Course.finishes (course : Course session className filter exchanges result after) :
    Program.Finishes Http.Answered (session.query className filter) exchanges (result, after) := by
  simp only [query, Program.finishes_bind_iff, finishes_attempt_iff]
  cases course with
  | settled settles =>
      refine ⟨_, _, [], ⟨_, rfl, rfl⟩, ?_, rfl⟩
      rw [settles]
      exact .done _
  | loginFailed refused fails =>
      refine ⟨_, _, _, ⟨_, rfl, rfl⟩, ?_, rfl⟩
      simp only [refused, Program.finishes_bind_iff, Account.finishes_login_iff]
      refine ⟨_, _, [], ⟨_, rfl, rfl⟩, ?_, rfl⟩
      rw [fails]
      exact .done _
  | repeated refused grants last =>
      refine ⟨_, _, _, ⟨_, rfl, rfl⟩, ?_, rfl⟩
      simp only [refused, Program.finishes_bind_iff, Account.finishes_login_iff]
      refine ⟨_, _, _, ⟨_, rfl, rfl⟩, ?_, rfl⟩
      simp only [grants, Program.finishes_bind_iff, finishes_attempt_iff]
      refine ⟨_, _, [], ⟨_, rfl, rfl⟩, ?_, rfl⟩
      cases again : Attempt.of className last <;> exact .done _

end Session

/-! ## Conversations -/

/-- A class query of a conversation. -/
structure Turn where
  /-- The session before it. -/
  before : Session
  /-- Name of the class. -/
  className : String
  /-- The filter. -/
  filter : String
  /-- What is sent and how it ends. -/
  exchanges : List Exchanged
  /-- What the query gives. -/
  result : Except Error (List Object)
  /-- The session after it. -/
  after : Session

/-- A class query is sent in this turn. -/
def Turn.Asks (turn : Turn) : Prop :=
  Program.Finishes Http.Answered (turn.before.query turn.className turn.filter) turn.exchanges
    (turn.result, turn.after)

/-- Class queries one after another, each with the session that the one before
it left. -/
inductive Conversation : Session → List Turn → Session → Prop
  | nil (session : Session) : Conversation session [] session
  | cons {turn : Turn} {turns : List Turn} {last : Session} (asks : turn.Asks)
      (further : Conversation turn.after turns last) :
      Conversation turn.before (turn :: turns) last

section Throughout

variable {Value : Type} {holds : List Value → Value → List Value → Prop} {value : Value}
  {values : List Value}

end Throughout

namespace Session

@[simp] theorem url_classRequest (session : Session) (className filter : String) :
    (session.classRequest className filter).url = session.classUrl className filter := rfl

theorem Course.latestToken? {session after : Session} {className filter : String}
    {exchanges : List Exchanged} {result : Except Error (List Object)}
    (course : Course session className filter exchanges result after) {earlier : List Exchanged}
    (known : session.account.latestToken? earlier = some session.token) :
    after.account = session.account ∧
      after.account.latestToken? (earlier ++ exchanges) = some after.token := by
  rw [Account.latestToken?_append]
  cases course with
  | settled settles => simp [Account.latestToken?, ← known]
  | loginFailed refused fails => simp [Account.latestToken?, fails, Except.toOption, ← known]
  | repeated refused grants last => simp [Account.latestToken?, grants, Except.toOption]

end Session

variable {account : Account} {session last : Session} {turns : List Turn}
  {earlier : List Exchanged}

end Inventory
end InventoryGauges
