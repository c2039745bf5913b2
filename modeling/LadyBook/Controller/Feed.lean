import LadyBook.Model.Article
import LadyBook.Platform

/-!
# `FirstViewController` and `FirstView2Controller`

Both list the articles in a table.  `viewDidLoad` issues the query, its completion handler appends
the articles it can read one by one, and the table view asks for counts and cells at any time, also
while the handler reloads it.
-/

namespace LadyBook

/-- `first` is the list "Top", `first2` the list "TestView". -/
inductive FeedKind where
  | first
  | first2
  deriving DecidableEq, Repr

/-- The labels of a reused `TableViewCell`. -/
structure Cell where
  titleLabel : Option String
  articleLabel : Option String
  deriving DecidableEq, Repr

namespace FirstViewController

/-- The article read from one document of the snapshot; its text is the default of the
initializer. -/
def readDocument (documentID : DocumentID) (data : DocumentData) : Option Article :=
  match data.string? "title", data.timestamp? "createdAt" with
  | some title, some createdAt => some (Article.make documentID title "" createdAt)
  | _, _ => none

def cellForRowAt (articles : List Article) (cell : Cell) (row : ℕ) : Except Trap Cell :=
  if articles.isEmpty = false then
    match articles[row]? with
    | some article => .ok { cell with titleLabel := article.title }
    | none => .error .indexOutOfRange
  else
    .ok cell

end FirstViewController

namespace FirstView2Controller

def readDocument (documentID : DocumentID) (data : DocumentData) : Option Article :=
  match data.string? "title", data.string? "text", data.timestamp? "createdAt" with
  | some title, some text, some createdAt => some (Article.make documentID title text createdAt)
  | _, _, _ => none

def cellForRowAt (articles : List Article) (cell : Cell) (row : ℕ) : Except Trap Cell :=
  if articles.isEmpty = false then
    match articles[row]? with
    | some article =>
        .ok { cell with titleLabel := article.title, articleLabel := article.text }
    | none => .error .indexOutOfRange
  else
    .ok cell

end FirstView2Controller

namespace FeedKind

def readDocument : FeedKind → DocumentID → DocumentData → Option Article
  | first => FirstViewController.readDocument
  | first2 => FirstView2Controller.readDocument

def cellForRowAt : FeedKind → List Article → Cell → ℕ → Except Trap Cell
  | first => FirstViewController.cellForRowAt
  | first2 => FirstView2Controller.cellForRowAt

/-- The articles a controller reads from the documents of a snapshot. -/
def read (kind : FeedKind) (documents : List (DocumentID × DocumentData)) : List Article :=
  documents.filterMap fun document ↦ kind.readDocument document.1 document.2

variable {kind : FeedKind} {documentID : DocumentID} {data : DocumentData}

theorem read_cons_none (h : kind.readDocument documentID data = none)
    (documents : List (DocumentID × DocumentData)) :
    kind.read ((documentID, data) :: documents) = kind.read documents :=
  List.filterMap_cons_none h

theorem read_cons_some {a : Article} (h : kind.readDocument documentID data = some a)
    (documents : List (DocumentID × DocumentData)) :
    kind.read ((documentID, data) :: documents) = a :: kind.read documents :=
  List.filterMap_cons_some h

end FeedKind

/-- The state of `getDocuments`; a snapshot shows one state of the collection, and there is none
after an error. -/
inductive Query where
  | notIssued
  | issued
  | answered (querySnapShot : Option Collection)
  | completed (querySnapShot : Option Collection)
  deriving DecidableEq

def Query.snapshot : Query → Option Collection
  | .answered querySnapShot => querySnapShot
  | .completed querySnapShot => querySnapShot
  | _ => none

/-- `rows` is the last count that the table view obtained. -/
structure Feed where
  articles : List Article
  query : Query
  rows : Option ℕ

/-- What a table view asks its data source. -/
inductive TableRequest where
  | numberOfRowsInSection
  | cellForRowAt (cell : Cell) (row : ℕ)

namespace Feed

def init : Feed := ⟨[], .notIssued, none⟩

def viewDidLoad (f : Feed) : Option Feed :=
  match f.query with
  | .notIssued => some { f with query := .issued }
  | _ => none

def getDocuments (f : Feed) (querySnapShot : Option Collection) : Option Feed :=
  match f.query with
  | .issued => some { f with query := .answered querySnapShot }
  | _ => none

variable (kind : FeedKind)

-- A table view asks for cells of rows below the last count only.
def request (f : Feed) : TableRequest → Except Trap Feed
  | .numberOfRowsInSection => .ok { f with rows := some f.articles.length }
  | .cellForRowAt cell row =>
      if row < f.rows.getD 0 then
        (kind.cellForRowAt f.articles cell row).map fun _ ↦ f
      else
        -- UIKit does not ask for such a row
        .ok f

-- The loop over the documents; `asks` are the requests during the `reloadData` of each round.
def readArticles : Feed → List (DocumentID × DocumentData) → List (List TableRequest) →
    Except Trap Feed
  | f, [], _ => .ok f
  | f, (documentID, data) :: documents, asks => do
      -- a document that is not read leaves the table to be reloaded as it was
      let f := match kind.readDocument documentID data with
        | some article => { f with articles := f.articles ++ [article] }
        | none => f
      let f ← (asks.headD []).foldlM (request kind) f
      readArticles f documents asks.tail

-- The completion handler of `getDocuments`.
def readArticlesFromFirestore (f : Feed) (asks : List (List TableRequest)) :
    Option (Except Trap Feed) :=
  match f.query with
  -- an error is printed, and the table is not reloaded
  | .answered none => some (.ok { f with query := .completed none })
  | .answered (some snapshot) =>
      some ((readArticles kind f snapshot.documents asks).map fun f ↦
        { f with query := .completed (some snapshot) })
  | _ => none

/-! ## The table view never asks for too much -/

/-- The last count is not larger than the number of articles. -/
def RowsInRange (f : Feed) : Prop := ∀ n, f.rows = some n → n ≤ f.articles.length

variable {kind} {f f' : Feed}

-- Below the number of articles a cell is filled with the article of its row.
theorem cellForRowAt_ok (kind : FeedKind) {articles : List Article} {row : ℕ}
    (h : row < articles.length)
    (cell : Cell) : ∃ cell', kind.cellForRowAt articles cell row = .ok cell' ∧
      cell'.titleLabel = articles[row].title ∧
      (kind = .first2 → cell'.articleLabel = articles[row].text) := by
  have hne : articles.isEmpty = false := by
    cases articles with
    | nil => cases h
    | cons a articles => rfl
  cases kind with
  | first =>
      refine ⟨{ cell with titleLabel := articles[row].title }, ?_, rfl, fun hk ↦ by cases hk⟩
      show FirstViewController.cellForRowAt articles cell row = _
      rw [FirstViewController.cellForRowAt, if_pos hne, List.getElem?_eq_getElem h]
  | first2 =>
      refine ⟨⟨articles[row].title, articles[row].text⟩, ?_, rfl, fun _ ↦ rfl⟩
      show FirstView2Controller.cellForRowAt articles cell row = _
      rw [FirstView2Controller.cellForRowAt, if_pos hne, List.getElem?_eq_getElem h]

theorem request_ok (kind : FeedKind) (h : f.RowsInRange) (r : TableRequest) :
    ∃ f', request kind f r = .ok f' ∧ f'.RowsInRange ∧ f'.articles = f.articles ∧
      f'.query = f.query := by
  cases r with
  | numberOfRowsInSection =>
      refine ⟨_, rfl, ?_, rfl, rfl⟩
      intro n hn
      exact (Option.some.inj hn).ge
  | cellForRowAt cell row =>
      by_cases hrow : row < f.rows.getD 0
      · have hlt : row < f.articles.length := by
          cases hr : f.rows with
          | none =>
              rw [hr] at hrow
              exact absurd hrow (Nat.not_lt_zero row)
          | some n =>
              rw [hr] at hrow
              exact Nat.lt_of_lt_of_le hrow (h n hr)
        obtain ⟨cell', hcell, -⟩ := cellForRowAt_ok kind hlt cell
        refine ⟨f, ?_, h, rfl, rfl⟩
        rw [request, if_pos hrow, hcell]
        rfl
      · exact ⟨f, by rw [request, if_neg hrow], h, rfl, rfl⟩

theorem requests_ok (kind : FeedKind) (h : f.RowsInRange) (rs : List TableRequest) :
    ∃ f', rs.foldlM (request kind) f = .ok f' ∧ f'.RowsInRange ∧ f'.articles = f.articles ∧
      f'.query = f.query := by
  induction rs generalizing f with
  | nil => exact ⟨f, rfl, h, rfl, rfl⟩
  | cons r rs ih =>
      obtain ⟨m, hm, hrows, ha, hq⟩ := request_ok kind h r
      obtain ⟨f', hf', hrows', ha', hq'⟩ := ih hrows
      refine ⟨f', ?_, hrows', ha'.trans ha, hq'.trans hq⟩
      rw [List.foldlM_cons, hm]
      exact hf'

-- The loop appends what it reads and never goes out of range.
theorem readArticles_ok (kind : FeedKind) (h : f.RowsInRange)
    (documents : List (DocumentID × DocumentData))
    (asks : List (List TableRequest)) :
    ∃ f', readArticles kind f documents asks = .ok f' ∧ f'.RowsInRange ∧
      f'.articles = f.articles ++ kind.read documents ∧ f'.query = f.query := by
  induction documents generalizing f asks with
  | nil => exact ⟨f, rfl, h, (List.append_nil _).symm, rfl⟩
  | cons document documents ih =>
      obtain ⟨documentID, data⟩ := document
      cases hread : kind.readDocument documentID data with
      | none =>
          obtain ⟨m, hm, hrows, ha, hq⟩ := requests_ok kind h (asks.headD [])
          obtain ⟨f', hf', hrows', ha', hq'⟩ := ih hrows asks.tail
          refine ⟨f', ?_, hrows', ?_, hq'.trans hq⟩
          · rw [readArticles, hread]
            show (List.foldlM _ f _ >>= _) = _
            rw [hm]
            exact hf'
          · rw [ha', ha, FeedKind.read_cons_none hread]
      | some article =>
          have happ : RowsInRange { f with articles := f.articles ++ [article] } := by
            intro n hn
            have hle := h n hn
            rw [List.length_append]
            omega
          obtain ⟨m, hm, hrows, ha, hq⟩ := requests_ok kind happ (asks.headD [])
          obtain ⟨f', hf', hrows', ha', hq'⟩ := ih hrows asks.tail
          refine ⟨f', ?_, hrows', ?_, hq'.trans hq⟩
          · rw [readArticles, hread]
            show (List.foldlM _ { f with articles := f.articles ++ [article] } _ >>= _) = _
            rw [hm]
            exact hf'
          · rw [ha', ha, FeedKind.read_cons_some hread]
            exact (List.append_cons f.articles article _).symm

theorem viewDidLoad_query (hf : f.viewDidLoad = some f') : f'.query = .issued := by
  unfold Feed.viewDidLoad at hf
  split at hf
  next => exact Option.some.inj hf ▸ rfl
  next => cases hf

theorem getDocuments_query {querySnapShot : Option Collection}
    (hf : f.getDocuments querySnapShot = some f') : f'.query = .answered querySnapShot := by
  unfold Feed.getDocuments at hf
  split at hf
  next => exact Option.some.inj hf ▸ rfl
  next => cases hf

/-! ## What a feed holds -/

/-- The articles are what the controller reads from its snapshot, and none before. -/
structure Sound (kind : FeedKind) (f : Feed) : Prop where
  rows : f.RowsInRange
  articles : f.articles = match f.query with
    | .completed (some snapshot) => kind.read snapshot.documents
    | _ => []

theorem sound_init (kind : FeedKind) : init.Sound kind where
  rows := fun _ hn ↦ by cases hn
  articles := rfl

theorem Sound.viewDidLoad (h : f.Sound kind) (hf : f.viewDidLoad = some f') : f'.Sound kind := by
  have harticles := h.articles
  unfold Feed.viewDidLoad at hf
  split at hf
  next hq =>
    rw [hq] at harticles
    obtain rfl := Option.some.inj hf
    exact ⟨h.rows, harticles⟩
  next => cases hf

theorem Sound.getDocuments (h : f.Sound kind) {querySnapShot : Option Collection}
    (hf : f.getDocuments querySnapShot = some f') : f'.Sound kind := by
  have harticles := h.articles
  unfold Feed.getDocuments at hf
  split at hf
  next hq =>
    rw [hq] at harticles
    obtain rfl := Option.some.inj hf
    exact ⟨h.rows, harticles⟩
  next => cases hf

theorem Sound.request (h : f.Sound kind) (r : TableRequest) :
    ∃ f', request kind f r = .ok f' ∧ f'.Sound kind ∧ f'.query = f.query := by
  obtain ⟨f', hf', hrows, ha, hq⟩ := request_ok kind h.rows r
  refine ⟨f', hf', ⟨hrows, ?_⟩, hq⟩
  rw [ha, hq]
  exact h.articles

-- The completion handler does not trap, and shows what the snapshot holds.
theorem Sound.readArticlesFromFirestore (h : f.Sound kind) {asks : List (List TableRequest)}
    {outcome : Except Trap Feed} (ho : f.readArticlesFromFirestore kind asks = some outcome) :
    ∃ f' querySnapShot, outcome = .ok f' ∧ f'.Sound kind ∧ f.query = .answered querySnapShot ∧
      f'.query = .completed querySnapShot := by
  have harticles := h.articles
  unfold Feed.readArticlesFromFirestore at ho
  split at ho
  next hq =>
    rw [hq] at harticles
    obtain rfl := Option.some.inj ho
    exact ⟨_, none, rfl, ⟨h.rows, harticles⟩, hq, rfl⟩
  next snapshot hq =>
    rw [hq] at harticles
    obtain ⟨f', hf', hrows, ha, -⟩ := readArticles_ok kind h.rows snapshot.documents asks
    rw [hf'] at ho
    obtain rfl := Option.some.inj ho
    refine ⟨{ f' with query := .completed (some snapshot) }, some snapshot, rfl, ⟨hrows, ?_⟩,
      hq, rfl⟩
    show f'.articles = kind.read snapshot.documents
    rw [ha, harticles, List.nil_append]
  next => cases ho

end Feed

end LadyBook
