import Mathlib.Data.List.Dedup
import FastiKit.Language.Lines
import FastiKit.Scaffold.Names

/- The texts of the modules that are generated for an entity. -/
namespace FastiKit.Scaffold

/-- `sep.join([f(field) for field in fields])` -/
def joinFields (sep : String) (f : Field → String) (fields : List Field) : String := sep.intercalate (fields.map f)

def annotated (f : Field) : String := f.name ++ ": " ++ f.pyType

/-! The entity. -/

def entityFields (fields : List Field) : String :=
  let text := joinFields "\n    " annotated fields
  if text = "" then "# TODO: add domain-specific fields here (e.g. name: str)" else text

def entityTemplate (pascal : String) (fields : List Field) : String :=
  Lines.unlines
    ["import uuid", "from dataclasses import dataclass", "from datetime import datetime", "", "", "@dataclass",
      "class " ++ pascal ++ ":", "    id: uuid.UUID", "    " ++ entityFields fields, "    is_active: bool",
      "    created_at: datetime", "    updated_at: datetime"]

/-! The model. -/

/-- `', default=' + f['default'] if f['default'] else ''` -/
def defaultArgument : Option String → String
  | none => ""
  | some default => if default = "" then "" else ", default=" ++ default

def column (f : Field) : String :=
  f.name ++ ": Mapped[" ++ f.pyType ++ "] = mapped_column(" ++ f.sqlaType ++ defaultArgument f.default ++ ")"

def modelFields (fields : List Field) : String :=
  let text := joinFields "\n    " column fields
  if text = "" then "# TODO: add domain-specific columns here" else text

/-- The column types to import, sorted. -/
def columnTypes (fields : List Field) : List String :=
  (["Boolean", "DateTime"] ++ (fields.filter (fun f => f.type ≠ "uuid")).map Field.sqlaType).dedup.mergeSort (fun a b => a ≤ b)

def modelTemplate (snake pascal : String) (fields : List Field) : String :=
  Lines.unlines
    ["import uuid", "from datetime import UTC, datetime", "",
      "from sqlalchemy import " ++ ", ".intercalate (columnTypes fields),
      "from sqlalchemy.dialects.postgresql import UUID", "from sqlalchemy.orm import Mapped, mapped_column", "",
      "from core.database import Base", "", "", "class " ++ pascal ++ "Model(Base):",
      "    __tablename__ = \"" ++ pluralize snake ++ "\"", "", "    id: Mapped[uuid.UUID] = mapped_column(",
      "        UUID(as_uuid=True), primary_key=True, default=uuid.uuid4", "    )", "    " ++ modelFields fields, "",
      "    created_at: Mapped[datetime] = mapped_column(",
      "        DateTime(timezone=True), default=lambda: datetime.now(UTC)", "    )",
      "    updated_at: Mapped[datetime] = mapped_column(", "        DateTime(timezone=True),",
      "        default=lambda: datetime.now(UTC),", "        onupdate=lambda: datetime.now(UTC),", "    )",
      "    is_active: Mapped[bool] = mapped_column(Boolean, default=True)"]

/-! The repository. -/

def addSignature (fields : List Field) : String :=
  if fields = [] then "self, **fields" else "self, " ++ joinFields ", " annotated fields

def modelInstantiation (pascal : String) (fields : List Field) : String :=
  if fields = [] then pascal ++ "Model(**fields)"
  else pascal ++ "Model(" ++ joinFields ", " (fun f => f.name ++ "=" ++ f.name) fields ++ ")"

def toEntityFields (fields : List Field) : String :=
  if fields = [] then "# TODO: map domain-specific fields here (e.g. name=model.name)\n            "
  else joinFields "\n            " (fun f => f.name ++ "=model." ++ f.name ++ ",") fields ++ "\n            "

def uuidImport (fields : List Field) : String := if fields.any (fun f => f.type = "uuid") then "import uuid\n" else ""

def repositoryTemplate (domain snake pascal : String) (fields : List Field) : String :=
  Lines.unlines
    [uuidImport fields ++ "from uuid import UUID", "",
      "from fastapi_pagination.cursor import CursorPage, CursorParams",
      "from fastapi_pagination.ext.sqlalchemy import apaginate", "from sqlalchemy import select",
      "from sqlalchemy.exc import IntegrityError", "from sqlalchemy.ext.asyncio import AsyncSession", "",
      "from core.database import force_primary_var, transaction", "from core.exception import ConflictError",
      "from " ++ domain ++ ".entities." ++ snake ++ " import " ++ pascal,
      "from " ++ domain ++ ".models import " ++ pascal ++ "Model", "", "", "class " ++ pascal ++ "Repository:",
      "    def __init__(self, db: AsyncSession) -> None:", "        self.db: AsyncSession = db", "",
      "    async def add(" ++ addSignature fields ++ ") -> " ++ pascal ++ ":", "        force_primary_var.set(True)",
      "        model = " ++ modelInstantiation pascal fields, "", "        async with transaction(self.db):",
      "            await self._flush_or_raise(model)", "            return self._to_entity(model)", "",
      "    async def get(self, id: UUID) -> " ++ pascal ++ " | None:",
      "        result = await self.db.scalar(select(" ++ pascal ++ "Model).where(" ++ pascal ++ "Model.id == id))",
      "", "        if result is None:", "            return None", "", "        return self._to_entity(result)", "",
      "    async def update(self, id: UUID, **fields) -> " ++ pascal ++ " | None:",
      "        force_primary_var.set(True)", "        record = await self.db.get(" ++ pascal ++ "Model, id)", "",
      "        if record is None:", "            return None", "", "        async with transaction(self.db):",
      "            for key, value in fields.items():", "                setattr(record, key, value)",
      "            await self._flush_or_raise()", "            return self._to_entity(record)", "",
      "    async def delete(self, id: UUID) -> " ++ pascal ++ " | None:", "        force_primary_var.set(True)",
      "        record = await self.db.get(" ++ pascal ++ "Model, id)", "", "        if record is None:",
      "            return None", "", "        async with transaction(self.db):",
      "            record.is_active = False", "            await self.db.flush()",
      "            return self._to_entity(record)", "",
      "    async def force_delete(self, id: UUID) -> " ++ pascal ++ " | None:",
      "        force_primary_var.set(True)", "        record = await self.db.get(" ++ pascal ++ "Model, id)", "",
      "        if record is None:", "            return None", "        result = self._to_entity(record)", "",
      "        async with transaction(self.db):", "            await self.db.delete(record)",
      "            await self.db.flush()", "", "        return result", "",
      "    async def list(self, params: CursorParams | None = None) -> CursorPage[" ++ pascal ++ "]:",
      "        return await apaginate(", "            self.db,",
      "            select(" ++ pascal ++ "Model).order_by(",
      "                " ++ pascal ++ "Model.created_at.desc(), " ++ pascal ++ "Model.id.desc()", "            ),",
      "            params=params or CursorParams(),",
      "            transformer=lambda models: [self._to_entity(model) for model in models],", "        )", "",
      "    async def _flush_or_raise(self, model: " ++ pascal ++ "Model | None = None) -> None:", "        try:",
      "            if model is not None:", "                self.db.add(model)", "            await self.db.flush()",
      "        except IntegrityError as err:",
      "            raise ConflictError(\"" ++ pascal ++ " violates a uniqueness constraint\") from err", "",
      "    @staticmethod", "    def _to_entity(model: " ++ pascal ++ "Model) -> " ++ pascal ++ ":",
      "        return " ++ pascal ++ "(", "            id=model.id,",
      "            " ++ toEntityFields fields ++ "is_active=model.is_active,",
      "            created_at=model.created_at,", "            updated_at=model.updated_at,", "        )"]

/-! The schemas. -/

def createFields (fields : List Field) : String :=
  if fields = [] then "# TODO: add domain-specific fields here (e.g. name: str)\n    pass"
  else joinFields "\n    " annotated fields

def updateFields (fields : List Field) : String :=
  if fields = [] then "# TODO: add domain-specific fields here, all optional\n    pass"
  else joinFields "\n    " (fun f => annotated f ++ " | None = None") fields

def responseFields (fields : List Field) : String :=
  if fields = [] then "# TODO: add domain-specific fields here (e.g. name: str)\n    "
  else joinFields "\n    " annotated fields ++ "\n    "

def schemaTemplate (pascal : String) (fields : List Field) : String :=
  Lines.unlines
    ["import uuid", "from datetime import datetime", "", "from pydantic import BaseModel", "", "",
      "class Create" ++ pascal ++ "Request(BaseModel):", "    " ++ createFields fields, "", "",
      "class Update" ++ pascal ++ "Request(BaseModel):", "    " ++ updateFields fields, "", "",
      "class " ++ pascal ++ "Response(BaseModel):", "    id: uuid.UUID",
      "    " ++ responseFields fields ++ "is_active: bool", "    created_at: datetime", "    updated_at: datetime",
      "", "    model_config = \x7b\"from_attributes\": True\x7d"]

/-! The service and the routes, which have no fields. -/

def serviceTemplate (domain snake pascal : String) : String :=
  Lines.unlines
    ["from uuid import UUID", "", "from fastapi_pagination.cursor import CursorPage, CursorParams", "",
      "from core.exception import EntityNotFoundError",
      "from " ++ domain ++ ".entities." ++ snake ++ " import " ++ pascal,
      "from " ++ domain ++ ".repositories." ++ snake ++ "_repository import " ++ pascal ++ "Repository",
      "from " ++ domain ++ ".schemas." ++ snake ++ "_schema import Create" ++ pascal ++ "Request, Update" ++ pascal ++ "Request",
      "", "", "class " ++ pascal ++ "Service:", "    def __init__(self, repo: " ++ pascal ++ "Repository) -> None:",
      "        self.repo = repo", "",
      "    async def create(self, data: Create" ++ pascal ++ "Request) -> " ++ pascal ++ ":",
      "        return await self.repo.add(**data.model_dump())", "",
      "    async def get(self, id: UUID) -> " ++ pascal ++ ":", "        record = await self.repo.get(id)", "",
      "        if record is None:", "            raise EntityNotFoundError(\"" ++ pascal ++ "\", str(id))", "",
      "        return record", "",
      "    async def update(self, id: UUID, data: Update" ++ pascal ++ "Request) -> " ++ pascal ++ ":",
      "        record = await self.repo.update(id=id, **data.model_dump(exclude_unset=True))", "",
      "        if record is None:", "            raise EntityNotFoundError(\"" ++ pascal ++ "\", str(id))", "",
      "        return record", "", "    async def delete(self, id: UUID, force: bool = False) -> " ++ pascal ++ ":",
      "        if force:", "            record = await self.repo.force_delete(id)", "        else:",
      "            record = await self.repo.delete(id)", "", "        if record is None:",
      "            raise EntityNotFoundError(\"" ++ pascal ++ "\", str(id))", "", "        return record", "",
      "    async def list(self, params: CursorParams | None = None) -> CursorPage[" ++ pascal ++ "]:",
      "        return await self.repo.list(params)"]

def routeTemplate (domain snake pascal : String) : String :=
  Lines.unlines
    ["from uuid import UUID", "", "from fastapi import APIRouter, Depends",
      "from fastapi_pagination.cursor import CursorPage, CursorParams", "", "from auth.dependencies import auth",
      "from " ++ domain ++ ".dependencies import get_" ++ snake ++ "_service",
      "from " ++ domain ++ ".entities." ++ snake ++ " import " ++ pascal,
      "from " ++ domain ++ ".schemas." ++ snake ++ "_schema import (", "    Create" ++ pascal ++ "Request,",
      "    " ++ pascal ++ "Response,", "    Update" ++ pascal ++ "Request,", ")",
      "from " ++ domain ++ ".services." ++ snake ++ "_service import " ++ pascal ++ "Service", "",
      snake ++ "_router = APIRouter(prefix=\"/" ++ (pluralize snake).map (fun c => if c = '_' then '-' else c) ++ "\", tags=[\"" ++ pascal ++ "\"])", "",
      "requires_access_token = [", "    Depends(auth.token_required(type=\"access\", locations=[\"headers\"]))", "]",
      "", "", "@" ++ snake ++ "_router.post(",
      "    \"\", response_model=" ++ pascal ++ "Response, dependencies=requires_access_token", ")",
      "async def create_" ++ snake ++ "(", "    data: Create" ++ pascal ++ "Request,",
      "    service: " ++ pascal ++ "Service = Depends(get_" ++ snake ++ "_service),", ") -> " ++ pascal ++ ":",
      "    return await service.create(data)", "", "",
      "@" ++ snake ++ "_router.get(\"/\x7bid\x7d\", response_model=" ++ pascal ++ "Response)",
      "async def get_" ++ snake ++ "(", "    id: UUID,",
      "    service: " ++ pascal ++ "Service = Depends(get_" ++ snake ++ "_service),", ") -> " ++ pascal ++ ":",
      "    return await service.get(id)", "", "", "@" ++ snake ++ "_router.patch(",
      "    \"/\x7bid\x7d\", response_model=" ++ pascal ++ "Response, dependencies=requires_access_token", ")",
      "async def update_" ++ snake ++ "(", "    id: UUID,", "    data: Update" ++ pascal ++ "Request,",
      "    service: " ++ pascal ++ "Service = Depends(get_" ++ snake ++ "_service),", ") -> " ++ pascal ++ ":",
      "    return await service.update(id, data)", "", "",
      "@" ++ snake ++ "_router.delete(\"/\x7bid\x7d\", dependencies=requires_access_token)",
      "async def delete_" ++ snake ++ "(", "    id: UUID,",
      "    service: " ++ pascal ++ "Service = Depends(get_" ++ snake ++ "_service),", ") -> dict[str, str]:",
      "    await service.delete(id)", "", "    return \x7b\"message\": \"" ++ pascal ++ " deleted\"\x7d", "", "",
      "@" ++ snake ++ "_router.get(\"\", response_model=CursorPage[" ++ pascal ++ "Response])",
      "async def list_" ++ pluralize snake ++ "(", "    params: CursorParams = Depends(),",
      "    service: " ++ pascal ++ "Service = Depends(get_" ++ snake ++ "_service),",
      ") -> CursorPage[" ++ pascal ++ "]:", "    return await service.list(params)"]

end FastiKit.Scaffold
